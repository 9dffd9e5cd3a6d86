import Knowledger.Fabric.SigningService

/-!
# No acknowledgement without a record

A property of the log and of what was sent that every record keeps, every refusal, and every
acknowledgement whose record was accepted, holds in every run of the service.
-/

namespace Knowledger.SigningService

open Js Storage

variable {keys : String → Option LoadedKey} {start : List UInt8} {s t : State}

/-! ## The statement -/

/-- The record names the key, the digest, the attestation and the signatures. -/
def Names (found : Value) (r : SignRequest) (signature : List UInt8)
    (attestationSignature : Option (List UInt8)) : Prop :=
  ∃ fs : Fields, found = .obj fs ∧ fs.get "key_id" = some (jsonString r.keyId) ∧
    fs.get "digest" = some (text64 r.digest) ∧
    fs.get "attestation" = some (orNull (r.attestation.map Attestation.toJson)) ∧
    fs.get "signature" = some (text64 signature) ∧
    fs.get "attestation_signature" = attestationSignature.map text64

/-- The key is bound to the organisation and the actor, and may sign for its kind. -/
structure LoadedKey.Bound (key : LoadedKey) (a : Attestation) : Prop where
  org : key.orgId = some a.orgId
  actor : key.actorId = some a.actorId
  kind : key.actorKind = some a.actorKind
  allowed : a.actorKind ∈ key.allowedActorKinds

structure State.Safe (keys : String → Option LoadedKey) (start : List UInt8) (s : State) :
    Prop where
  terminated : start = [] ∨ start.getLast? = some newline
  intact : s.log.Intact start
  recorded : ∀ x ∈ s.sent, ∀ signature attested, x.2 = .ok signature attested →
    ∃ r, x.1 = some r ∧ ∃ found, s.log.Kept found ∧ Names found r signature attested
  bound : ∀ x ∈ s.sent, ∀ signature attested, x.2 = .ok signature attested →
    ∀ r, x.1 = some r → ∀ a, r.attestation = some a → ∃ key, keys r.keyId = some key ∧ key.Bound a

/-- The acknowledgements that were sent. -/
def State.acknowledged (s : State) : List (Option SignRequest × Response) :=
  s.sent.filter fun x => match x.2 with
    | .ok .. => true
    | _ => false

/-! ## Records -/

theorem signedRecord_names (m : Moment) (r : SignRequest) (key : LoadedKey)
    (signature : List UInt8) (attested : Option (List UInt8)) :
    Names (signedRecord m r key signature attested) r signature attested := by
  refine ⟨_, rfl, ?_⟩
  simp

theorem LoadedKey.bound_of {key : LoadedKey} {a : Attestation}
    (accepts : key.rejects (some a) = false) : key.Bound a := by
  unfold LoadedKey.rejects at accepts
  simp only [Bool.or_eq_false_iff, bne_eq_false_iff_eq, Bool.not_eq_false'] at accepts
  obtain ⟨⟨⟨⟨-, actor⟩, kind⟩, org⟩, allowed⟩ := accepts
  exact ⟨org, actor, kind, List.contains_iff_mem.mp allowed⟩

/-! ## What every step keeps -/

/-- What is kept by every record, every refusal and every acknowledgement with a record. -/
structure Keeps (keys : String → Option LoadedKey)
    (P : AuditLog → List (Option SignRequest × Response) → Prop) : Prop where
  audit : ∀ {log sent} record io, P log sent → P (log.audit record io).2 sent
  answer : ∀ {log sent} r answer, P log sent → (∀ signature attested, answer ≠ .ok signature attested) →
    P log ((r, answer) :: sent)
  acknowledge : ∀ {log sent} m r key signature attested io, P log sent → keys r.keyId = some key →
    key.rejects r.attestation = false →
    (log.audit (signedRecord m r key signature attested) io).1 = true →
      P (log.audit (signedRecord m r key signature attested) io).2
        ((some r, .ok signature attested) :: sent)
  close : ∀ {log sent}, P log sent → P log.close sent

/-- A request that waits for its signatures passed the checks. -/
def State.Admitted (keys : String → Option LoadedKey) (s : State) : Prop :=
  ∀ f r key, s.pending f = some (r, key) →
    keys r.keyId = some key ∧ key.rejects r.attestation = false

section

variable {P : AuditLog → List (Option SignRequest × Response) → Prop} {m : Moment}
  {r : SignRequest} {key : LoadedKey}

theorem Keeps.fail (keeps : Keeps keys P) (holds : P s.log s.sent) (io : Io) :
    P (s.fail m r io).log (s.fail m r io).sent :=
  keeps.answer _ _ (keeps.audit _ _ holds) fun _ _ => nofun

theorem Keeps.reject (keeps : Keeps keys P) (holds : P s.log s.sent) (found : Value) (io : Ios) :
    P (s.reject m r found io).log (s.reject m r found io).sent := by
  have after := keeps.audit found io.first holds
  unfold State.reject
  split
  · next log run =>
      rw [run] at after
      exact keeps.answer _ _ after fun _ _ => nofun
  · next log run =>
      rw [run] at after
      exact keeps.fail after io.second

theorem Keeps.acknowledged (keeps : Keeps keys P) (holds : P s.log s.sent)
    (named : keys r.keyId = some key) (accepts : key.rejects r.attestation = false)
    (signature : List UInt8) (attested : Option (List UInt8)) (io : Ios) :
    P (s.acknowledge m r key signature attested io).log
      (s.acknowledge m r key signature attested io).sent := by
  have after := keeps.audit (signedRecord m r key signature attested) io.first holds
  have acked := keeps.acknowledge m r key signature attested io.first holds named accepts
  unfold State.acknowledge
  split
  · next log run =>
      rw [run] at acked
      exact acked rfl
  · next log run =>
      rw [run] at after
      exact keeps.fail after io.second

theorem Keeps.settle (keeps : Keeps keys P) (holds : P s.log s.sent)
    (named : keys r.keyId = some key) (accepts : key.rejects r.attestation = false)
    (signature attested : SignResult) (io : Ios) :
    P (s.settle m r key signature attested io).log (s.settle m r key signature attested io).sent := by
  unfold State.settle
  split
  · split
    · split_ifs
      · exact keeps.reject holds _ io
      · exact keeps.acknowledged holds named accepts _ _ io
      · split
        · split_ifs
          · exact keeps.acknowledged holds named accepts _ _ io
          · exact keeps.reject holds _ io
        · exact keeps.reject holds _ io
    · exact keeps.reject holds _ io
  · exact keeps.reject holds _ io

end

theorem Keeps.request {P : AuditLog → List (Option SignRequest × Response) → Prop}
    (keeps : Keeps keys P) (holds : P s.log s.sent) (f : Nat) (body : Option Value) (m : Moment)
    (evidence : Bool) (io : Ios) :
    P (s.request keys f body m evidence io).log (s.request keys f body m evidence io).sent := by
  unfold State.request
  split
  · exact keeps.answer _ _ holds fun _ _ => nofun
  · exact keeps.answer _ _ holds fun _ _ => nofun
  · split
    · exact keeps.answer _ _ holds fun _ _ => nofun
    · split_ifs
      · exact keeps.answer _ _ holds fun _ _ => nofun
      · exact keeps.reject holds _ io
      · exact keeps.reject holds _ io
      · exact keeps.fail holds io.first
      · exact holds

@[simp] theorem State.reject_pending (m : Moment) (r : SignRequest) (found : Value) (io : Ios) :
    (s.reject m r found io).pending = s.pending := by
  unfold State.reject
  split <;> rfl

@[simp] theorem State.acknowledge_pending (m : Moment) (r : SignRequest) (key : LoadedKey)
    (signature : List UInt8) (attested : Option (List UInt8)) (io : Ios) :
    (s.acknowledge m r key signature attested io).pending = s.pending := by
  unfold State.acknowledge
  split <;> rfl

theorem State.settle_pending (m : Moment) (r : SignRequest) (key : LoadedKey)
    (signature attested : SignResult) (io : Ios) :
    (s.settle m r key signature attested io).pending = s.pending := by
  unfold State.settle
  split
  · split
    · split_ifs
      · exact s.reject_pending m r _ io
      · exact s.acknowledge_pending m r key _ _ io
      · split
        · split_ifs <;> simp
        · exact s.reject_pending m r _ io
    · exact s.reject_pending m r _ io
  · exact s.reject_pending m r _ io

theorem State.Admitted.request {f : Nat} {body : Option Value} {m : Moment} {evidence : Bool}
    {io : Ios} (admitted : s.Admitted keys) :
    (s.request keys f body m evidence io).Admitted keys := by
  unfold State.request
  split
  · exact admitted
  · exact admitted
  · next r parsed =>
      split
      · exact admitted
      · next key named =>
          split_ifs with full mismatch rejected thrown
          · exact admitted
          · unfold State.Admitted
            rw [State.reject_pending]
            exact admitted
          · unfold State.Admitted
            rw [State.reject_pending]
            exact admitted
          · exact admitted
          · intro g r' key' is
            by_cases same : g = f
            · subst same
              dsimp only at is
              rw [Function.update_self] at is
              cases is
              exact ⟨named, Bool.eq_false_iff.mpr rejected⟩
            · dsimp only at is
              rw [Function.update_of_ne same] at is
              exact admitted g r' key' is

/-- One event keeps the checks of the requests under way, and what every record and response
keeps. -/
theorem Keeps.step {P : AuditLog → List (Option SignRequest × Response) → Prop} {e : Event}
    (keeps : Keeps keys P) (admitted : s.Admitted keys) (holds : P s.log s.sent)
    (taken : s.step keys e = some t) : t.Admitted keys ∧ P t.log t.sent := by
  cases e with
  | request f body m evidence io =>
      obtain ⟨-, rfl⟩ := (Option.ite_none_left_eq_some.mp taken).imp_right Option.some.inj
      exact ⟨admitted.request, keeps.request holds f body m evidence io⟩
  | signed f signature attested m io =>
      dsimp only [State.step] at taken
      split at taken
      · next r key waits =>
          obtain rfl := Option.some.inj taken
          obtain ⟨named, accepts⟩ := admitted f r key waits
          refine ⟨fun g r' key' is => ?_, keeps.settle holds named accepts _ _ io⟩
          unfold State.release at is
          rw [State.settle_pending] at is
          dsimp only at is
          by_cases same : g = f
          · subst same
            rw [Function.update_self] at is
            cases is
          · rw [Function.update_of_ne same] at is
            exact admitted g r' key' is
      · cases taken
  | close =>
      obtain rfl := Option.some.inj taken
      exact ⟨admitted, holds⟩
  | closeLog =>
      obtain ⟨-, rfl⟩ := (Option.ite_none_right_eq_some.mp taken).imp_right Option.some.inj
      exact ⟨admitted, keeps.close holds⟩

theorem Keeps.run {P : AuditLog → List (Option SignRequest × Response) → Prop}
    {events : List Event} (keeps : Keeps keys P) (admitted : s.Admitted keys)
    (holds : P s.log s.sent) (taken : Machine.run (State.step keys) s events = some t) :
    t.Admitted keys ∧ P t.log t.sent :=
  Machine.run_keeps (P := fun s => s.Admitted keys ∧ P s.log s.sent)
    (fun _ _ _ holds taken => keeps.step holds.1 holds.2 taken) ⟨admitted, holds⟩ taken

/-! ## Runs -/

/-- The log is sound, and every acknowledgement has its record and its bound key. -/
structure Held (keys : String → Option LoadedKey) (start : List UInt8) (log : AuditLog)
    (sent : List (Option SignRequest × Response)) : Prop where
  sound : log.Sound start
  recorded : ∀ x ∈ sent, ∀ signature attested, x.2 = .ok signature attested →
    ∃ r, x.1 = some r ∧ ∃ found, log.Kept found ∧ Names found r signature attested
  bound : ∀ x ∈ sent, ∀ signature attested, x.2 = .ok signature attested →
    ∀ r, x.1 = some r → ∀ a, r.attestation = some a → ∃ key, keys r.keyId = some key ∧ key.Bound a

theorem held_keeps : Keeps keys (Held keys start) where
  audit found io held :=
    { sound := held.sound.audit found io
      recorded := fun x mem signature attested is => by
        obtain ⟨r, same, found', kept, names⟩ := held.recorded x mem signature attested is
        exact ⟨r, same, found', kept.audit held.sound found io, names⟩
      bound := held.bound }
  answer r answer held refused :=
    { sound := held.sound
      recorded := fun x mem signature attested is => by
        rcases List.mem_cons.mp mem with rfl | mem
        · exact absurd is (refused signature attested)
        · exact held.recorded x mem signature attested is
      bound := fun x mem signature attested is => by
        rcases List.mem_cons.mp mem with rfl | mem
        · exact absurd is (refused signature attested)
        · exact held.bound x mem signature attested is }
  acknowledge m r key signature attested io held named accepts accepted :=
    { sound := held.sound.audit _ io
      recorded := fun x mem signature' attested' is => by
        rcases List.mem_cons.mp mem with rfl | mem
        · cases is
          exact ⟨r, rfl, _, AuditLog.audit_kept accepted, signedRecord_names m r key _ _⟩
        · obtain ⟨r', same, found, kept, names⟩ := held.recorded x mem signature' attested' is
          exact ⟨r', same, found, kept.audit held.sound _ io, names⟩
      bound := fun x mem signature' attested' is r' same a attests => by
        rcases List.mem_cons.mp mem with rfl | mem
        · obtain rfl := Option.some.inj same
          rw [attests] at accepts
          exact ⟨key, named, LoadedKey.bound_of accepts⟩
        · exact held.bound x mem signature' attested' is r' same a attests }
  close held :=
    { sound := ⟨held.sound.intact, held.sound.whole, held.sound.flushed⟩
      recorded := held.recorded
      bound := held.bound }

/-- A log that is torn takes no records, and no request is acknowledged. -/
theorem torn_keeps (log : AuditLog) (acknowledged : List (Option SignRequest × Response)) :
    Keeps keys fun log' sent => log'.torn = true ∧ log'.file = log.file ∧
      (sent.filter fun x => match x.2 with
        | .ok .. => true
        | _ => false) = acknowledged where
  audit found io holds := by
    rw [AuditLog.audit_torn holds.1]
    exact holds
  answer r answer holds refused := by
    refine ⟨holds.1, holds.2.1, ?_⟩
    cases answer with
    | ok signature attested => exact absurd rfl (refused signature attested)
    | invalidRequest | unknownKey | rejected => exact holds.2.2
  acknowledge m r key signature attested io holds named accepts accepted := by
    rw [AuditLog.audit_torn holds.1] at accepted
    cases accepted
  close holds := holds

/-- **No acknowledged signature without an intact record.**  In every run of the service the log is a
sequence of complete lines and at most one fragment, every acknowledgement has a flushed record and
a bound key, and nothing is written or acknowledged once the log is torn. -/
theorem signatures_recorded {log : AuditLog} {events : List Event}
    (opened : openAuditLog start = some log)
    (taken : Machine.run (State.step keys) (State.new log) events = some s) :
    s.Safe keys start ∧
    (∀ found, line found = Utf8.encode found.text ++ [newline] ∧
      newline ∉ Utf8.encode found.text) ∧
    ∀ more t, s.log.torn = true → Machine.run (State.step keys) s more = some t →
      t.log.torn = true ∧ t.log.file = s.log.file ∧ t.acknowledged = s.acknowledged := by
  obtain ⟨sound, terminated⟩ := openAuditLog_sound opened
  have first : Held keys start (State.new log).log (State.new log).sent :=
    { sound := sound
      recorded := fun x mem => by cases mem
      bound := fun x mem => by cases mem }
  obtain ⟨admitted, held⟩ := held_keeps.run (fun f r key is => by cases is) first taken
  refine ⟨⟨terminated, held.sound.intact, held.recorded, held.bound⟩,
    fun found => ⟨rfl, newline_notMem found⟩, fun more t torn taken => ?_⟩
  exact ((torn_keeps s.log s.acknowledged).run admitted ⟨torn, rfl, rfl⟩ taken).2

namespace Demo

def key : LoadedKey where
  certificate := [1, 2, 3]
  validFrom := 0
  validTo := 1000
  orgId := some (.wellFormed "org")
  actorId := some (.wellFormed "owner")
  actorKind := some .human
  allowedActorKinds := [.human]
  requireAttestation := true

def demoKeys (keyId : String) : Option LoadedKey := if keyId = "key-1" then some key else none

/-- A query that the organisation attests. -/
def body : Value := record [("operation", jsonString "sign"), ("key_id", jsonString "key-1"),
  ("digest", jsonString (String.ofList (List.replicate 43 'A'))), ("certificate", jsonString "AQID"),
  ("attestation", record [("org_id", jsonString "org"), ("actor_id", jsonString "owner"),
    ("actor_kind", jsonString "human"), ("phase", jsonString "query")])]

def moment : Moment := ⟨10, "2026-01-01T00:00:00.000Z"⟩

/-- The line is taken in two pieces, and flushed. -/
def whole : Io := ⟨[some 100, some 10000], true⟩

/-- The line is cut short. -/
def cut : Io := ⟨[some 100, none], true⟩

/-- Two requests at once, then a third: the record of the second is cut short. -/
def requests : List Event :=
  [.request 0 (some body) moment true ⟨whole, whole⟩, .request 1 (some body) moment true ⟨whole, whole⟩,
    .signed 1 (some (some [7])) (some (some [8])) moment ⟨whole, whole⟩,
    .signed 0 (some (some [7])) (some (some [8])) moment ⟨cut, whole⟩,
    .request 2 (some body) moment true ⟨whole, whole⟩,
    .signed 2 (some (some [7])) (some (some [8])) moment ⟨whole, whole⟩, .close, .closeLog]

/-- Only the first is acknowledged. -/
theorem signatures_recorded_torn : ∃ s,
    Machine.run (State.step demoKeys) (State.new ⟨[], [], 0, false, false⟩) requests = some s ∧
      s.log.torn = true ∧ s.sent.map Prod.snd = [.rejected, .rejected, .ok [7] (some [8])] ∧
        s.Safe demoKeys [] := by
  have sent : (Machine.run (State.step demoKeys) (State.new ⟨[], [], 0, false, false⟩) requests).map
      (fun s => (s.log.torn, s.sent.map Prod.snd)) =
        some (true, [.rejected, .rejected, .ok [7] (some [8])]) := by decide +kernel
  obtain ⟨s, taken, same⟩ := Option.map_eq_some_iff.mp sent
  obtain ⟨torn, answers⟩ := Prod.mk.inj same
  exact ⟨s, taken, torn, answers, (signatures_recorded rfl taken).1⟩

end Demo

end Knowledger.SigningService
