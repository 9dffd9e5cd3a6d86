import Knowledger.Fabric.Gateway

/-!
# Outbox safety

Every transaction that is handed to the client has its row, and a row is final only for a
reason that stays: the peer reported the transaction, or it was never sent.
-/

namespace Knowledger.Gateway

variable {Tx : Type} [LinearOrder Tx] {final : Tx → Report} {s t : State Tx}

/-! ## The statement -/

/-- The transaction took effect: it was sent, and is valid for good. -/
def State.tookEffect (final : Tx → Report) (s : State Tx) (tx : Tx) : Prop :=
  tx ∈ s.sent ∧ final tx = .valid

/-- The outbox is safe: what is handed to the client is recorded; a row is invalid only if the
peer said so, and cancelled only if its transaction is never sent; a call answers `valid` only on
the word of the peer or of the ledger; and a command is observed as rejected or cancelled only
if none of its recorded attempts ever takes effect. -/
structure State.Safe (final : Tx → Report) (s : State Tx) : Prop where
  recorded : ∀ tx ∈ s.handed, tx ∈ s.rows.map (·.txId)
  invalid : ∀ row ∈ s.rows, row.status = .invalid → (row.txId, .invalid) ∈ s.reports
  cancelled : ∀ row ∈ s.rows, row.status = .cancelled → row.txId ∈ s.cancelled
  unsent : ∀ tx ∈ s.cancelled, tx ∉ s.sent
  valid : ∀ result ∈ s.results, result.2 = .valid →
    (result.1.txId, .valid) ∈ s.reports ∨ result.1.command ∈ s.records
  observed : ∀ x ∈ s.observed, x.observation = .rejected ∨ x.observation = .cancelled →
    ∀ tx ∈ x.recorded, ¬ s.tookEffect final tx

/-- An observation reads every attempt again behind a recovery, and none is recorded between its
last read and its answer. -/
def Complete (s : State Tx) : Event Tx → Prop
  | .load f =>
      match (s.call f).stage, (s.call f).purpose with
      | .reloading, .observe command _ => (commandRows s.rows command).length ≤ 129
      | _, _ => True
  | .answer f =>
      match (s.call f).stage, (s.call f).purpose with
      | .loaded _ _ read, .observe command _ => (commandRows s.rows command).map (·.txId) = read
      | _, _ => True
  | _ => True

instance (s : State Tx) (e : Event Tx) : Decidable (Complete s e) := by
  cases e <;> dsimp only [Complete] <;> try split
  all_goals infer_instance

/-! ## The invariant -/

/-- The transaction of a call that has not sent it yet. -/
def Stage.unsent : Stage Tx → Option Tx
  | .recorded tx | .endorsing tx | .endorsed tx | .submitting tx => some tx
  | _ => none

/-- A row's status has its reason. -/
structure Row.Reason (reports : List (Tx × Report)) (cancelled : List Tx) (row : Row Tx) : Prop where
  invalid : row.status = .invalid → (row.txId, .invalid) ∈ reports
  cancelled : row.status = .cancelled → row.txId ∈ cancelled

/-- What the stage of a call knows. -/
def Stage.Knows (reports : List (Tx × Report)) (cancelled : List Tx) : Stage Tx → Prop
  | .reconciling attempt report => report = .invalid → (attempt.txId, .invalid) ∈ reports
  | .loaded attempts first read => (∀ row ∈ attempts, row.Reason reports cancelled) ∧
      ((first = true → attempts.length ≤ 128) → ∀ tx ∈ read, ∃ row ∈ attempts, row.txId = tx)
  | _ => True

structure State.Sound (final : Tx → Report) (s : State Tx) (among : Nat → Prop) : Prop where
  handed : ∀ tx ∈ s.handed, tx ∈ s.rows.map (·.txId)
  reasons : ∀ row ∈ s.rows, row.Reason s.reports s.cancelled
  cancelled : ∀ tx ∈ s.cancelled, tx ∈ s.rows.map (·.txId) ∧ tx ∉ s.sent
  sent : ∀ tx ∈ s.sent, tx ∈ s.rows.map (·.txId)
  truthful : ∀ report ∈ s.reports, s.truthful final report.1 report.2
  unsent : ∀ f, among f → ∀ tx, (s.call f).stage.unsent = some tx →
    tx ∈ s.rows.map (·.txId) ∧ tx ∉ s.sent ∧ tx ∉ s.cancelled
  distinct : ∀ f g, among f → among g → ∀ tx, (s.call f).stage.unsent = some tx →
    (s.call g).stage.unsent = some tx → f = g
  knows : ∀ f, among f → (s.call f).stage.Knows s.reports s.cancelled
  results : ∀ result ∈ s.results, result.2 = .valid →
    (result.1.txId, .valid) ∈ s.reports ∨ result.1.command ∈ s.records
  observed : ∀ x ∈ s.observed, x.observation = .rejected ∨ x.observation = .cancelled →
    ∀ tx ∈ x.recorded, (tx, .invalid) ∈ s.reports ∨ tx ∈ s.cancelled

theorem State.Sound.new : (State.new : State Tx).Sound final fun _ => True where
  handed tx mem := by cases mem
  reasons row mem := by cases mem
  cancelled tx mem := by cases mem
  sent tx mem := by cases mem
  truthful report mem := by cases mem
  unsent f _ tx h := by cases h
  distinct f g _ _ tx h := by cases h
  knows f _ := trivial
  results result mem := by cases mem
  observed x mem := by cases mem

variable {among : Nat → Prop}

theorem State.Sound.weaken (sound : s.Sound final fun _ => True) (among : Nat → Prop) :
    s.Sound final among where
  handed := sound.handed
  reasons := sound.reasons
  cancelled := sound.cancelled
  sent := sound.sent
  truthful := sound.truthful
  unsent f _ := sound.unsent f trivial
  distinct f g _ _ := sound.distinct f g trivial trivial
  knows f _ := sound.knows f trivial
  results := sound.results
  observed := sound.observed

theorem State.Sound.safe (sound : s.Sound final fun _ => True) : s.Safe final where
  recorded := sound.handed
  invalid row mem := (sound.reasons row mem).invalid
  cancelled row mem := (sound.reasons row mem).cancelled
  unsent tx mem := (sound.cancelled tx mem).2
  valid := sound.results
  observed x mem final tx inside := by
    rintro ⟨sent, valid⟩
    rcases sound.observed x mem final tx inside with reported | cancelled
    · rcases sound.truthful _ reported with unknown | ⟨-, same⟩
      · cases unknown
      · rw [valid] at same
        cases same
    · exact (sound.cancelled tx cancelled).2 sent

variable {reports reports' : List (Tx × Report)} {gone gone' : List Tx}

omit [LinearOrder Tx] in
theorem Row.Reason.mono {row : Row Tx} (reported : ∀ x ∈ reports, x ∈ reports')
    (cancelled : ∀ x ∈ gone, x ∈ gone') (reason : row.Reason reports gone) :
    row.Reason reports' gone' where
  invalid h := reported _ (reason.invalid h)
  cancelled h := cancelled _ (reason.cancelled h)

omit [LinearOrder Tx] in
/-- What a call knows stays known: nothing is taken back of what the peer said, or of what was
cancelled. -/
theorem Stage.Knows.mono {stage : Stage Tx} (reported : ∀ x ∈ reports, x ∈ reports')
    (cancelled : ∀ x ∈ gone, x ∈ gone') (knows : stage.Knows reports gone) :
    stage.Knows reports' gone' := by
  cases stage with
  | reconciling attempt report => exact fun invalid => reported _ (knows invalid)
  | loaded attempts first read =>
      exact ⟨fun row mem => (knows.1 row mem).mono reported cancelled, knows.2⟩
  | proposing | recorded | endorsing | endorsed | submitting | sent | querying | listing | loading
  | reloading | settled => trivial

/-! ## Operations -/

/-- A call moves to a stage it may move to. -/
theorem State.Sound.move {f : Nat} (sound : s.Sound final fun g => g ≠ f) {call : Call Tx}
    (unsent : ∀ tx, call.stage.unsent = some tx →
      tx ∈ s.rows.map (·.txId) ∧ tx ∉ s.sent ∧ tx ∉ s.cancelled ∧
        ∀ g, g ≠ f → (s.call g).stage.unsent ≠ some tx) (knows : call.stage.Knows s.reports s.cancelled) :
    ({ s with call := Function.update s.call f call } : State Tx).Sound final fun _ => True := by
  have self : Function.update s.call f call f = call := Function.update_self _ _ _
  have others : ∀ g, g ≠ f → Function.update s.call f call g = s.call g :=
    fun g differs => Function.update_of_ne differs _ _
  refine ⟨sound.handed, sound.reasons, sound.cancelled, sound.sent, sound.truthful,
    fun g _ tx h => ?_, fun g k _ _ tx hg hk => ?_, fun g _ => ?_, sound.results, sound.observed⟩
  · dsimp only at h ⊢
    by_cases same : g = f
    · rw [same, self] at h
      obtain ⟨row, fresh, live, -⟩ := unsent tx h
      exact ⟨row, fresh, live⟩
    · rw [others g same] at h
      exact sound.unsent g same tx h
  · dsimp only at hg hk
    by_cases g_f : g = f <;> by_cases k_f : k = f
    · rw [g_f, k_f]
    · rw [g_f, self] at hg
      rw [others k k_f] at hk
      exact absurd hk ((unsent tx hg).2.2.2 k k_f)
    · rw [others g g_f] at hg
      rw [k_f, self] at hk
      exact absurd hg ((unsent tx hk).2.2.2 g g_f)
    · rw [others g g_f] at hg
      rw [others k k_f] at hk
      exact sound.distinct g k g_f k_f tx hg hk
  · change (Function.update s.call f call g).stage.Knows s.reports s.cancelled
    by_cases same : g = f
    · rw [same, self]
      exact knows
    · rw [others g same]
      exact sound.knows g same

theorem State.Sound.settle {f : Nat} (sound : s.Sound final fun g => g ≠ f) (call : Call Tx)
    (unsent : call.stage.unsent = none) (knows : call.stage.Knows s.reports s.cancelled) :
    ({ s with call := Function.update s.call f call } : State Tx).Sound final fun _ => True :=
  sound.move (fun tx h => by rw [unsent] at h; cases h) knows

/-- A call that keeps its transaction back goes on. -/
theorem State.Sound.keep {f : Nat} {tx : Tx} (sound : s.Sound final fun _ => True) (stage : Stage Tx)
    (held : (s.call f).stage.unsent = some tx) (holds : stage.unsent = some tx)
    (knows : stage.Knows s.reports s.cancelled) : (s.goto f stage).Sound final fun _ => True := by
  refine (sound.weaken _).move (fun other h => ?_) knows
  obtain rfl : tx = other := Option.some.inj (holds.symm.trans h)
  obtain ⟨row, fresh, live⟩ := sound.unsent f trivial tx held
  exact ⟨row, fresh, live, fun g differs h => differs (sound.distinct g f trivial trivial tx h held)⟩

theorem State.Sound.record {attempt : Attempt Tx} (sound : s.Sound final among)
    (taken : s.recordAttempt attempt = some t) : t.Sound final among := by
  unfold State.recordAttempt at taken
  obtain ⟨-, rfl⟩ := (Option.ite_none_left_eq_some.mp taken).imp_right Option.some.inj
  have kept : ∀ tx, tx ∈ s.rows.map (·.txId) →
      tx ∈ ((⟨attempt, .pending, s.clock⟩ :: s.rows : List (Row Tx)).map (·.txId)) :=
    fun tx mem => List.mem_cons_of_mem _ mem
  refine ⟨fun tx mem => kept tx (sound.handed tx mem), fun row mem => ?_,
    fun tx mem => (sound.cancelled tx mem).imp_left (kept tx),
    fun tx mem => kept tx (sound.sent tx mem), sound.truthful,
    fun f inside tx h => (sound.unsent f inside tx h).imp_left (kept tx), sound.distinct,
    sound.knows, sound.results, sound.observed⟩
  rcases List.mem_cons.mp mem with rfl | mem
  · constructor <;> intro h <;> cases h
  · exact sound.reasons row mem

/-- An update is made with its reason. -/
theorem State.Sound.update {tx : Tx} {status : Status} (sound : s.Sound final among)
    (invalid : status = .invalid → (tx, .invalid) ∈ s.reports)
    (cancelled : status = .cancelled →
      tx ∉ s.sent ∧ ∀ g, among g → (s.call g).stage.unsent ≠ some tx)
    (taken : s.updateAttempt tx status = some t) : t.Sound final among := by
  unfold State.updateAttempt at taken
  obtain ⟨row, rfl⟩ := (Option.ite_none_right_eq_some.mp taken).imp_right Option.some.inj
  have ids : (s.rows.map fun row => if row.txId = tx then
      { row with status := status, updatedAt := s.clock } else row).map (·.txId) =
        s.rows.map (·.txId) := by
    rw [List.map_map]
    refine List.map_congr_left fun row _ => ?_
    by_cases same : row.txId = tx <;> simp [same]
  have more : ∀ x ∈ s.cancelled, x ∈ if status = .cancelled then tx :: s.cancelled else s.cancelled := by
    intro x mem
    split_ifs
    · exact List.mem_cons_of_mem _ mem
    · exact mem
  refine ⟨?_, ?_, ?_, ?_, sound.truthful, ?_, sound.distinct,
    fun f inside => (sound.knows f inside).mono (fun _ => id) more, sound.results,
    fun x mem final tx inside => (sound.observed x mem final tx inside).imp_right (more tx)⟩ <;>
    dsimp only <;> try rw [ids]
  · exact sound.handed
  · intro row mem
    obtain ⟨old, held, rfl⟩ := List.mem_map.mp mem
    by_cases same : old.txId = tx
    · rw [if_pos same]
      refine ⟨fun h => same ▸ invalid h, fun h => ?_⟩
      rw [if_pos h]
      exact List.mem_cons.mpr (Or.inl same)
    · rw [if_neg same]
      exact (sound.reasons old held).mono (fun _ => id) more
  · intro x mem
    split_ifs at mem with cancels
    · rcases List.mem_cons.mp mem with rfl | mem
      · exact ⟨row, (cancelled cancels).1⟩
      · exact sound.cancelled x mem
    · exact sound.cancelled x mem
  · exact sound.sent
  · intro f inside x h
    obtain ⟨row, fresh, live⟩ := sound.unsent f inside x h
    refine ⟨row, fresh, ?_⟩
    split_ifs with cancels
    · rintro mem
      rcases List.mem_cons.mp mem with rfl | mem
      · exact (cancelled cancels).2 f inside h
      · exact live mem
    · exact live

theorem State.afterRecover_eq (s : State Tx) (f : Nat) (threw : Bool) :
    ∃ call : Call Tx, s.afterRecover f threw = { s with call := Function.update s.call f call } ∧
      call.stage.unsent = none ∧ ∀ reports gone, call.stage.Knows reports gone := by
  unfold State.afterRecover
  split
  · split_ifs
    · exact ⟨_, rfl, rfl, fun _ _ => trivial⟩
    · exact ⟨_, rfl, rfl, fun _ _ => trivial⟩
  · refine ⟨_, rfl, ?_⟩
    cases threw <;> exact ⟨rfl, fun _ _ => trivial⟩
  · exact ⟨_, rfl, rfl, fun _ _ => trivial⟩

theorem State.Sound.conclude {f : Nat} {attempt : Attempt Tx} {outcome : Outcome}
    (sound : s.Sound final fun g => g ≠ f) (reason : outcome = .valid →
      (attempt.txId, .valid) ∈ s.reports ∨ attempt.command ∈ s.records) :
    (s.conclude f attempt outcome).Sound final fun _ => True := by
  obtain ⟨call, after, unsent, knows⟩ := s.afterRecover_eq f (outcome = .threw)
  have settled := sound.settle call unsent (knows _ _)
  unfold State.conclude
  rw [after]
  refine ⟨settled.handed, settled.reasons, settled.cancelled, settled.sent, settled.truthful,
    settled.unsent, settled.distinct, settled.knows, fun result mem => ?_, settled.observed⟩
  rcases List.mem_cons.mp mem with rfl | mem
  · exact reason
  · exact settled.results result mem

theorem State.Sound.updating {f : Nat} {attempt : Attempt Tx} {status : Status}
    {next : State Tx → State Tx} (sound : s.Sound final fun g => g ≠ f)
    (goes : ∀ t, s.updateAttempt attempt.txId status = some t →
      (next t).Sound final fun _ => True) :
    (s.updating f attempt status next).Sound final fun _ => True := by
  unfold State.updating
  split
  · next t taken => exact goes t taken
  · exact sound.conclude fun h => by cases h

theorem State.updateAttempt_eq {tx : Tx} {status : Status} (taken : s.updateAttempt tx status = some t) :
    t.call = s.call ∧ t.reports = s.reports ∧ t.records = s.records := by
  unfold State.updateAttempt at taken
  obtain ⟨-, rfl⟩ := (Option.ite_none_right_eq_some.mp taken).imp_right Option.some.inj
  exact ⟨rfl, rfl, rfl⟩

/-! ## Steps -/

theorem State.Sound.begin {purpose : Purpose Tx} {stage : Stage Tx}
    (sound : s.Sound final fun _ => True) (unsent : stage.unsent = none)
    (knows : stage.Knows s.reports s.cancelled) :
    (s.begin purpose stage).Sound final fun _ => True := by
  have counted : ({ s with calls := s.calls + 1 } : State Tx).Sound final fun g => g ≠ s.calls :=
    { sound.weaken _ with }
  exact counted.settle ⟨purpose, stage⟩ unsent knows

theorem State.Sound.settled {f : Nat} (sound : s.Sound final fun _ => True) (stage : Stage Tx)
    (unsent : stage.unsent = none) (knows : stage.Knows s.reports s.cancelled) :
    (s.goto f stage).Sound final fun _ => True :=
  (sound.weaken _).settle { s.call f with stage := stage } unsent knows

theorem State.Sound.hand {tx : Tx} (sound : s.Sound final among) (row : tx ∈ s.rows.map (·.txId)) :
    ({ s with handed := tx :: s.handed } : State Tx).Sound final among :=
  { sound with
    handed := fun x mem => by
      rcases List.mem_cons.mp mem with rfl | mem
      · exact row
      · exact sound.handed x mem }

/-- The transaction of a call is its alone, so sending it leaves the others' unsent. -/
theorem State.Sound.send {f : Nat} {tx : Tx} (sound : s.Sound final fun _ => True)
    (held : (s.call f).stage.unsent = some tx) :
    ({ s with sent := tx :: s.sent } : State Tx).Sound final fun g => g ≠ f := by
  obtain ⟨row, fresh, live⟩ := sound.unsent f trivial tx held
  refine { sound.weaken _ with
    cancelled := fun x mem => ⟨(sound.cancelled x mem).1, fun gone => ?_⟩
    sent := fun x mem => ?_
    truthful := fun report mem =>
      (sound.truthful report mem).imp_right (And.imp_left (List.mem_cons_of_mem _))
    unsent := fun g differs x h => ?_ }
  · rcases List.mem_cons.mp gone with rfl | gone
    · exact live mem
    · exact (sound.cancelled x mem).2 gone
  · rcases List.mem_cons.mp mem with rfl | mem
    · exact row
    · exact sound.sent x mem
  · obtain ⟨recorded, unsent, uncancelled⟩ := sound.unsent g trivial x h
    refine ⟨recorded, fun gone => ?_, uncancelled⟩
    rcases List.mem_cons.mp gone with rfl | gone
    · exact differs (sound.distinct g f trivial trivial x h held)
    · exact unsent gone

theorem State.Sound.report {tx : Tx} {report : Report} (sound : s.Sound final among)
    (truthful : s.truthful final tx report) :
    ({ s with reports := (tx, report) :: s.reports } : State Tx).Sound final among := by
  have more : ∀ x ∈ s.reports, x ∈ (tx, report) :: s.reports := fun x => List.mem_cons_of_mem _
  refine { sound with
    reasons := fun row mem => (sound.reasons row mem).mono more fun _ => id
    truthful := fun x mem => ?_
    knows := fun f inside => (sound.knows f inside).mono more fun _ => id
    results := fun result mem h => (sound.results result mem h).imp_left (more _)
    observed := fun x mem h tx inside => (sound.observed x mem h tx inside).imp_left (more _) }
  rcases List.mem_cons.mp mem with rfl | mem
  · exact truthful
  · exact sound.truthful x mem

omit [LinearOrder Tx] in
theorem State.attempt_txId (s : State Tx) (f : Nat) (tx : Tx) : (s.attempt f tx).txId = tx := by
  unfold State.attempt
  split <;> rfl

/-- A transaction that is being recorded is new: nothing was sent or cancelled without its row. -/
theorem State.Sound.proposed {f : Nat} {answer : Answer} {tx : Tx}
    (sound : s.Sound final fun _ => True) : (s.proposed f answer tx).Sound final fun _ => True := by
  unfold State.proposed
  split
  · split
    · next t taken =>
        have recorded := (sound.weaken fun g => g ≠ f).record taken
        unfold State.recordAttempt at taken
        obtain ⟨fresh, rfl⟩ := (Option.ite_none_left_eq_some.mp taken).imp_right Option.some.inj
        rw [State.attempt_txId] at fresh
        refine recorded.move (fun x h => ?_) trivial
        obtain rfl : tx = x := Option.some.inj h
        refine ⟨?_, fun sent => fresh (sound.sent tx sent),
          fun gone => fresh (sound.cancelled tx gone).1,
          fun g _ h => fresh (sound.unsent g trivial tx h).1⟩
        simp [State.attempt_txId]
    · exact sound.settled _ rfl trivial
  · exact sound.settled _ rfl trivial

/-- A status that needs no reason is stored, and the call goes on. -/
theorem State.Sound.updating_keep {f : Nat} {tx : Tx} {status : Status} {stage : Stage Tx}
    (sound : s.Sound final fun _ => True) (held : (s.call f).stage.unsent = some tx)
    (holds : stage.unsent = some tx) (open_ : status ≠ .invalid ∧ status ≠ .cancelled)
    (knows : ∀ reports gone, stage.Knows reports gone) :
    (s.updating f (s.attempt f tx) status fun t => t.goto f stage).Sound final fun _ => True := by
  refine (sound.weaken _).updating fun t taken => ?_
  have updated := sound.update (fun h => absurd h open_.1) (fun h => absurd h open_.2) taken
  refine updated.keep _ ?_ holds (knows _ _)
  rw [(State.updateAttempt_eq taken).1]
  exact held

theorem State.Sound.updating_settled {f : Nat} {attempt : Attempt Tx} {status : Status}
    {stage : Stage Tx} (sound : s.Sound final fun g => g ≠ f) (unsent : stage.unsent = none)
    (open_ : status ≠ .invalid ∧ status ≠ .cancelled)
    (knows : ∀ reports gone, stage.Knows reports gone) :
    (s.updating f attempt status fun t => t.goto f stage).Sound final fun _ => True := by
  refine sound.updating fun t taken => ?_
  have updated := sound.update (fun h => absurd h open_.1) (fun h => absurd h open_.2) taken
  exact updated.settle { t.call f with stage := stage } unsent (knows _ _)

theorem State.Sound.updating_conclude {f : Nat} {attempt : Attempt Tx} {status : Status}
    {outcome : Outcome} (sound : s.Sound final fun g => g ≠ f)
    (invalid : status = .invalid → (attempt.txId, .invalid) ∈ s.reports)
    (cancelled : status = .cancelled →
      attempt.txId ∉ s.sent ∧ ∀ g, g ≠ f → (s.call g).stage.unsent ≠ some attempt.txId)
    (reason : outcome = .valid →
      (attempt.txId, .valid) ∈ s.reports ∨ attempt.command ∈ s.records) :
    (s.updating f attempt status fun t => t.conclude f attempt outcome).Sound final
      fun _ => True := by
  refine sound.updating fun t taken => ?_
  obtain ⟨-, reports, records⟩ := State.updateAttempt_eq taken
  refine (sound.update invalid cancelled taken).conclude fun h => ?_
  rw [reports, records]
  exact reason h

/-- The client gave up before the request left, and no other call can send the transaction. -/
theorem State.Sound.cancel {f : Nat} {tx : Tx} (sound : s.Sound final fun _ => True)
    (held : (s.call f).stage.unsent = some tx) :
    (s.updating f (s.attempt f tx) .cancelled fun t =>
      t.conclude f (s.attempt f tx) .threw).Sound final fun _ => True := by
  refine (sound.weaken _).updating_conclude (fun h => by cases h) (fun _ => ?_) fun h => by cases h
  rw [State.attempt_txId]
  exact ⟨(sound.unsent f trivial tx held).2.1,
    fun g differs h => differs (sound.distinct g f trivial trivial tx h held)⟩

theorem State.Sound.endorsed {f : Nat} {tx : Tx} {answer : Answer}
    (sound : s.Sound final fun _ => True) (held : (s.call f).stage.unsent = some tx) :
    (s.endorsed f tx answer).Sound final fun _ => True := by
  unfold State.endorsed
  cases answer with
  | returned => exact sound.updating_keep held rfl (by decide) fun _ _ => trivial
  | authorizationCancelled => exact sound.cancel held
  | failed =>
      exact (sound.weaken _).updating_conclude (fun h => by cases h) (fun h => by cases h)
        fun h => by cases h

theorem State.Sound.submitted {f : Nat} {tx : Tx} {answer : Answer}
    (sound : s.Sound final fun _ => True)
    (held : answer = .authorizationCancelled → (s.call f).stage.unsent = some tx) :
    (s.submitted f tx answer).Sound final fun _ => True := by
  unfold State.submitted
  cases answer with
  | returned => exact (sound.weaken _).updating_settled rfl (by decide) fun _ _ => trivial
  | authorizationCancelled => exact sound.cancel (held rfl)
  | failed => exact (sound.weaken _).updating_settled rfl (by decide) fun _ _ => trivial

theorem State.Sound.status {f : Nat} {attempt : Attempt Tx} {report : Report} {resultThrows : Bool}
    (sound : s.Sound final fun _ => True) (truthful : s.truthful final attempt.txId report) :
    (s.status f attempt report resultThrows).Sound final fun _ => True := by
  have reported := sound.report truthful
  have here : (attempt.txId, report) ∈ (attempt.txId, report) :: s.reports := List.mem_cons_self
  unfold State.status
  cases report with
  | valid =>
      dsimp only
      cases (s.call f).purpose with
      | execute command =>
          exact (reported.weaken _).updating_conclude (fun h => by cases h) (fun h => by cases h)
            fun _ => Or.inl here
      | recover rest =>
          exact (reported.weaken _).updating_conclude (fun h => by cases h) (fun h => by cases h)
            fun _ => Or.inl here
      | observe command queryPeer =>
          exact (reported.weaken _).updating_conclude (fun h => by cases h) (fun h => by cases h)
            fun _ => Or.inl here
  | invalid => exact reported.settled _ rfl fun _ => here
  | unknown => exact reported.settled _ rfl fun h => by cases h

theorem State.Sound.authoritative {f : Nat} {attempt : Attempt Tx} {report : Report}
    {answer : Option (Option String)} (sound : s.Sound final fun _ => True)
    (reported : report = .invalid → (attempt.txId, .invalid) ∈ s.reports)
    (truthful : s.truthfulRecord attempt.command answer) :
    (s.authoritative f attempt report answer).Sound final fun _ => True := by
  unfold State.authoritative
  split
  · exact (sound.weaken _).conclude fun h => by cases h
  · next found =>
      split_ifs with matched invalid
      · rw [matched] at truthful
        exact (sound.weaken _).updating_conclude (fun h => by cases h) (fun h => by cases h)
          fun _ => Or.inr truthful
      · exact (sound.weaken _).updating_conclude (fun _ => reported invalid) (fun h => by cases h)
          fun h => by cases h
      · exact (sound.weaken _).conclude fun h => by cases h

/-! ## Observations -/

/-- The listed attempts are all of the command's, unless there are more than the limit. -/
theorem listCommandAttempts_length (rows : List (Row Tx)) (command : Command) :
    (listCommandAttempts rows command).length = min 129 (commandRows rows command).length := by
  unfold listCommandAttempts
  rw [List.length_take, List.length_insertionSort]

theorem mem_listCommandAttempts {rows : List (Row Tx)} {command : Command} {row : Row Tx}
    (mem : row ∈ listCommandAttempts rows command) : row ∈ rows := by
  have sorted := List.mem_of_mem_take mem
  rw [List.mem_insertionSort] at sorted
  exact List.mem_of_mem_filter sorted

theorem listCommandAttempts_complete {rows : List (Row Tx)} {command : Command}
    (few : (commandRows rows command).length ≤ 129) {row : Row Tx}
    (mem : row ∈ commandRows rows command) : row ∈ listCommandAttempts rows command := by
  unfold listCommandAttempts
  rw [List.take_of_length_le (by rw [List.length_insertionSort]; exact few),
    List.mem_insertionSort]
  exact mem

theorem State.Sound.load {f : Nat} {command : Command} {first : Bool}
    (sound : s.Sound final fun _ => True)
    (complete : first = false → (commandRows s.rows command).length ≤ 129) :
    (s.load f command first).Sound final fun _ => True := by
  refine sound.settled _ rfl ⟨fun row mem => sound.reasons row (mem_listCommandAttempts mem),
    fun accepted tx mem => ?_⟩
  have few : (commandRows s.rows command).length ≤ 129 := by
    cases first with
    | false => exact complete rfl
    | true =>
        have := accepted rfl
        rw [listCommandAttempts_length] at this
        omega
  obtain ⟨row, held, same⟩ := List.mem_map.mp mem
  exact ⟨row, listCommandAttempts_complete few held, same⟩

omit [LinearOrder Tx] in
/-- A refusal is read off attempts that are all final. -/
theorem observation_final {attempts : List (Row Tx)}
    (refused : observation attempts = .rejected ∨ observation attempts = .cancelled) {row : Row Tx}
    (mem : row ∈ attempts) : row.status = .invalid ∨ row.status = .cancelled := by
  unfold observation at refused
  split_ifs at refused with outstanding
  · rcases refused with h | h <;> cases h
  all_goals
    rw [List.any_eq_true, not_exists] at outstanding
    have := fun h => outstanding row ⟨mem, h⟩
    exact or_iff_not_imp_left.mpr (by simpa using this)

theorem State.Sound.observe {f : Nat} {command : Command} {read : List Tx} {answer : Observation}
    (sound : s.Sound final fun _ => True) (recorded : (commandRows s.rows command).map (·.txId) = read)
    (refused : answer = .rejected ∨ answer = .cancelled →
      ∀ tx ∈ read, (tx, .invalid) ∈ s.reports ∨ tx ∈ s.cancelled) :
    (s.observe f command read answer).Sound final fun _ => True := by
  refine { State.Sound.settled (f := f) sound .settled rfl trivial with
    observed := fun x mem h tx inside => ?_ }
  rcases List.mem_cons.mp mem with rfl | mem
  · exact refused h tx (recorded ▸ inside)
  · exact sound.observed x mem h tx inside

theorem State.Sound.answer {f : Nat} {command : Command} {queryPeer first : Bool}
    {attempts : List (Row Tx)} {read : List Tx} (sound : s.Sound final fun _ => True)
    (knows : (Stage.loaded attempts first read).Knows s.reports s.cancelled)
    (recorded : (commandRows s.rows command).map (·.txId) = read) :
    (s.answer f command queryPeer attempts first read).Sound final fun _ => True := by
  obtain ⟨reasons, covers⟩ := knows
  have other : ∀ {answer : Observation}, answer ≠ .rejected ∧ answer ≠ .cancelled →
      (s.observe f command read answer).Sound final fun _ => True := fun h =>
    sound.observe recorded fun refused => absurd refused (not_or.mpr h)
  unfold State.answer
  split
  · exact other (by decide)
  split
  · exact other (by decide)
  split
  · exact other (by decide)
  next within =>
    have accepted : first = true → attempts.length ≤ 128 := fun h =>
      Nat.le_of_not_lt fun more => within ⟨h, more⟩
    have answers : (s.observe f command read (observation attempts)).Sound final fun _ => True := by
      refine sound.observe recorded fun refused tx mem => ?_
      obtain ⟨row, held, rfl⟩ := covers accepted tx mem
      rcases observation_final refused held with invalid | cancelled
      · exact Or.inl ((reasons row held).invalid invalid)
      · exact Or.inr ((reasons row held).cancelled cancelled)
    split
    · split
      · exact sound.settled _ rfl trivial
      · exact answers
    · exact answers

/-! ## Runs -/

theorem State.Sound.step {e : Event Tx} (sound : s.Sound final fun _ => True)
    (complete : Complete s e) (taken : s.step final e = some t) : t.Sound final fun _ => True := by
  cases e with
  | execute command =>
      obtain rfl := Option.some.inj taken
      exact sound.begin rfl trivial
  | recover attempt =>
      obtain rfl := Option.some.inj taken
      exact sound.begin rfl trivial
  | recoverPending =>
      obtain rfl := Option.some.inj taken
      exact sound.begin rfl trivial
  | observeCommand command queryPeer =>
      obtain rfl := Option.some.inj taken
      exact sound.begin rfl trivial
  | clock now =>
      obtain rfl := Option.some.inj taken
      exact { sound with }
  | record command =>
      obtain rfl := Option.some.inj taken
      exact { sound with
        results := fun result mem h =>
          (sound.results result mem h).imp_right (List.mem_cons_of_mem _) }
  | proposed f answer tx =>
      dsimp only [State.step] at taken
      split at taken
      · obtain rfl := Option.some.inj taken
        exact sound.proposed
      · cases taken
  | endorse f =>
      dsimp only [State.step] at taken
      split at taken
      · next tx at_ =>
          obtain rfl := Option.some.inj taken
          have held : (s.call f).stage.unsent = some tx := by rw [at_]; rfl
          exact (sound.keep (.endorsing tx) held rfl trivial).hand (sound.unsent f trivial tx held).1
      · cases taken
  | endorsed f answer =>
      dsimp only [State.step] at taken
      split at taken
      · next tx at_ =>
          obtain rfl := Option.some.inj taken
          exact sound.endorsed (by rw [at_]; rfl)
      · cases taken
  | submit f =>
      dsimp only [State.step] at taken
      split at taken
      · next tx at_ =>
          obtain rfl := Option.some.inj taken
          have held : (s.call f).stage.unsent = some tx := by rw [at_]; rfl
          exact (sound.keep (.submitting tx) held rfl trivial).hand (sound.unsent f trivial tx held).1
      · cases taken
  | send f =>
      dsimp only [State.step] at taken
      split at taken
      · next tx at_ =>
          obtain rfl := Option.some.inj taken
          exact (sound.send (by rw [at_]; rfl)).settle
            { s.call f with stage := .sent tx } rfl trivial
      · cases taken
  | submitted f answer =>
      dsimp only [State.step] at taken
      split at taken
      · next tx at_ =>
          obtain ⟨-, rfl⟩ := (Option.ite_none_left_eq_some.mp taken).imp_right Option.some.inj
          exact sound.submitted fun _ => by rw [at_]; rfl
      · obtain ⟨back, rfl⟩ := (Option.ite_none_left_eq_some.mp taken).imp_right Option.some.inj
        exact sound.submitted fun h => absurd h back
      · cases taken
  | status f report resultThrows =>
      dsimp only [State.step] at taken
      split at taken
      · obtain ⟨truthful, rfl⟩ :=
          (Option.ite_none_right_eq_some.mp taken).imp_right Option.some.inj
        exact sound.status truthful
      · cases taken
  | authoritative f answer =>
      dsimp only [State.step] at taken
      split at taken
      · next attempt report at_ =>
          obtain ⟨truthful, rfl⟩ :=
            (Option.ite_none_right_eq_some.mp taken).imp_right Option.some.inj
          have knows := sound.knows f trivial
          rw [at_] at knows
          exact sound.authoritative knows truthful
      · cases taken
  | list f =>
      dsimp only [State.step] at taken
      split at taken
      · split at taken
        · obtain rfl := Option.some.inj taken
          exact sound.settled _ rfl trivial
        · obtain rfl := Option.some.inj taken
          exact (sound.weaken _).settle _ rfl trivial
      · cases taken
  | load f =>
      dsimp only [State.step] at taken
      split at taken
      · obtain rfl := Option.some.inj taken
        exact sound.load fun h => by cases h
      · next command queryPeer at_ purpose =>
          obtain rfl := Option.some.inj taken
          dsimp only [Complete] at complete
          rw [at_, purpose] at complete
          exact sound.load fun _ => complete
      · cases taken
  | answer f =>
      dsimp only [State.step] at taken
      split at taken
      · next attempts first read command queryPeer at_ purpose =>
          obtain rfl := Option.some.inj taken
          have knows := sound.knows f trivial
          dsimp only [Complete] at complete
          rw [at_] at knows
          rw [at_, purpose] at complete
          exact sound.answer knows complete
      · cases taken

end Knowledger.Gateway
