import Knowledger.Serializability
import Knowledger.StableRecords
import Knowledger.Storage.StateLinks

/-!
# Honest write sets

A projection refuses a write set that breaks its rules: an immutable record that changes, a link
to nothing, a value that is not read back.  The write set of a `bootstrap` or of an `execute` on a
reachable store breaks none of them (`Known.honest`).
-/

namespace Knowledger.Storage

open Js Txn Uri

/-! ## Immutable kinds -/

/-- `IMMUTABLE_KINDS` -/
def immutableKinds : List String :=
  ["config", "revision", "revision_id", "policy", "decision", "idempotency", "fence"]

/-- `IMMUTABLE_KINDS.has(key.split(':')[2])` -/
def isImmutable (key : String) : Bool :=
  ((splitOn ':' key)[2]?).any fun kind => immutableKinds.contains kind

def immutablePrefix : KeyPrefix → Bool
  | .config | .revision | .revisionId | .policy | .decision | .idempotency | .fence => true
  | _ => false

theorem isImmutable_text (k : Key) : isImmutable k.text = immutablePrefix k.kind := by
  have kinds : ∀ j : KeyPrefix, immutableKinds.contains j.kind = immutablePrefix j := by
    intro j
    cases j <;> decide
  rw [isImmutable, Key.text, split_stateKey]
  exact kinds k.kind

/-- What a projection asks of a write set on the store `s`. -/
structure Honest [Sha256] (s : Store) (w : Writes String Value) : Prop where
  nodup : (w.map Prod.fst).Nodup
  stable : ∀ e ∈ w, e.2.stable = true
  immutable : ∀ e ∈ w, isImmutable e.1 = true → ∀ v, s e.1 = some v → v = e.2
  links : ∀ e ∈ w, validateStateLinks (w.over s) e.1 e.2 = .ok ()

end Knowledger.Storage

namespace Knowledger

open Js Txn Uri Storage

variable [Sha256] {L : State} {config : DomainConfig} {s : Store}

/-! ## Immutable records are written once -/

/-- A record that is written again under an immutable key is the stored one. -/
def WrittenOnce (L : State) (e : Entry) : Prop :=
  immutablePrefix e.1.kind = true → ∀ r, L e.1 = some r → r = e.2

theorem WrittenOnce.fresh {e : Entry} (fresh : L e.1 = none) : WrittenOnce L e := by
  intro _ r stored
  rw [fresh] at stored
  cases stored

theorem WrittenOnce.mutable {e : Entry} (kind : immutablePrefix e.1.kind = false) :
    WrittenOnce L e := by
  intro immutable
  rw [kind] at immutable
  cases immutable

theorem closeEntries_writtenOnce {a : AgreementRecord} {valid : a.Valid} {epoch : SafeInt 0} :
    ∀ e ∈ closeEntries a valid epoch, WrittenOnce L e := by
  intro e mem
  simp only [closeEntries, List.mem_cons, List.not_mem_nil, or_false] at mem
  rcases mem with rfl | rfl | rfl
  all_goals exact .mutable rfl

theorem Performs.writtenOnce {ctx : Context} {command : DomainCommand} {r : Value}
    {es : List Entry} (core : Core L config) (performs : Performs L ctx config command r es) :
    ∀ e ∈ es, WrittenOnce L e := by
  intro e mem
  cases performs with
  | republish c type => cases mem
  | publish c type =>
      simp only [Publishing.entries, List.mem_cons, List.not_mem_nil, or_false] at mem
      rcases mem with rfl | rfl
      · exact .fresh c.fresh
      · exact .fresh c.freshId
  | propose c type =>
      simp only [Proposing.entries, List.mem_cons, List.not_mem_nil, or_false] at mem
      rcases mem with rfl | rfl | rfl
      · exact .mutable rfl
      · exact .mutable rfl
      · intro _ r stored
        have named := core.policies _ _ r.1 (State.policy_eq.mpr ⟨r.2, stored⟩)
        exact Subtype.ext (Option.some.inj (named.symm.trans c.found))
  | decide c type =>
      rw [Deciding.entries, List.mem_append] at mem
      rcases mem with recorded | closed
      · simp only [decisionEntries, List.mem_cons, List.not_mem_nil, or_false] at recorded
        rcases recorded with rfl | rfl | rfl | rfl
        · exact .fresh c.fresh
        all_goals exact .mutable rfl
      · cases found : c.suspension with
        | none =>
            rw [found] at closed
            cases closed
        | some u =>
            rw [found, Option.elim, Suspension.entries] at closed
            exact closeEntries_writtenOnce e closed
  | activate c type =>
      simp only [Activating.entries, activatedEntries, List.cons_append, List.mem_cons,
        List.mem_append, List.not_mem_nil, or_false] at mem
      rcases mem with rfl | superseded | rfl | rfl | rfl
      · exact .mutable rfl
      · exact .mutable (by rw [supersededEntries_kind e superseded]; rfl)
      all_goals exact .mutable rfl
  | withdraw c type => exact closeEntries_writtenOnce e mem
  | suspend c type => exact closeEntries_writtenOnce e mem
  | fence c type =>
      simp only [Fencing.entries, List.mem_singleton] at mem
      subst mem
      exact .fresh c.fresh

theorem Execution.writtenOnce {ctx : TxContext} {command : Value} (core : Core L config)
    (c : Execution L ctx command) : ∀ e ∈ c.entries, WrittenOnce L e := by
  obtain rfl := c.toAdmitted.config_unique core
  rw [Execution.entries, List.forall_mem_append, List.forall_mem_cons]
  exact ⟨c.performs.writtenOnce core, .fresh c.fresh, List.forall_mem_nil _⟩

theorem Execution.stable_entries {ctx : TxContext} {command : Value}
    (c : Execution L ctx command) : ∀ e ∈ c.entries, (e.1.toValue e.2).stable = true := by
  rw [Execution.entries, List.forall_mem_append, List.forall_mem_cons]
  refine ⟨fun e mem => stable_toValue e.2 (c.performs.kinds e mem), ?_, List.forall_mem_nil _⟩
  have result := stable_normalize c.performs.stable_result
  exact stable_normalize (IdempotencyRecord.stable_toJson result)

theorem Bootstrapping.stable_entries {ctx : TxContext} {configInput : Value}
    (c : Bootstrapping L ctx configInput) : ∀ e ∈ c.entries, (e.1.toValue e.2).stable = true := by
  intro e mem
  refine stable_toValue e.2 ?_
  rw [Bootstrapping.entries, List.mem_cons, List.mem_cons] at mem
  rcases mem with rfl | rfl | policy
  · simp
  · simp
  · obtain ⟨p, _, rfl⟩ := List.mem_pmap.mp policy
    simp [policyEntry]

/-! ## Write sets -/

/-- What is buffered is the value of an entry, under its key. -/
theorem mem_putAll {w : Writes String Value} {es : List Entry} {written : String × Value}
    (mem : written ∈ putAll w es) :
    written ∈ w ∨ ∃ e ∈ es, written = (e.1.text, e.1.toValue e.2) := by
  induction es generalizing w with
  | nil => exact .inl mem
  | cons e es ih =>
      rw [putAll_cons] at mem
      rcases ih mem with earlier | ⟨f, later, same⟩
      · rcases Writes.mem_set earlier with new | old
        · exact .inr ⟨e, List.mem_cons_self, new⟩
        · exact .inl old
      · exact .inr ⟨f, List.mem_cons_of_mem _ later, same⟩

theorem nodup_putAll {w : Writes String Value} (es : List Entry)
    (nodup : (w.map Prod.fst).Nodup) : ((putAll w es).map Prod.fst).Nodup := by
  induction es generalizing w with
  | nil => exact nodup
  | cons e es ih => exact ih (Writes.nodup_set nodup)

/-- A record under an immutable key stays. -/
theorem putAll_writtenOnce {es : List Entry} (once : ∀ e ∈ es, WrittenOnce L e) {k : Key}
    {r : k.Record} (immutable : immutablePrefix k.kind = true) (stored : L k = some r) :
    L.putAll es k = some r := by
  rcases State.putAll_cases L es k with same | ⟨r', mem, written⟩
  · rw [same, stored]
  · rw [written, once _ mem immutable r stored]

/-- The writes of entries that are stable and written once, where the store after them is
reachable. -/
theorem honest_putAll {es : List Entry} (represents : Represents L s)
    (stable : ∀ e ∈ es, (e.1.toValue e.2).stable = true) (once : ∀ e ∈ es, WrittenOnce L e)
    (reachable : Reachable ((putAll [] es).over s)) : Honest s (putAll [] es) := by
  have after := represents_putAll represents es
  have nodup : ((putAll [] es).map Prod.fst).Nodup := nodup_putAll es List.nodup_nil
  have stored : ∀ e ∈ putAll [] es, (putAll [] es).over s e.1 = some e.2 := fun e mem => by
    rw [Writes.over_apply, Writes.find_of_mem nodup mem, Option.some_or]
  refine ⟨nodup, fun e mem => ?_, fun e mem immutable v before => ?_, fun e mem => ?_⟩
  · rcases mem_putAll mem with none | ⟨f, listed, rfl⟩
    · cases none
    · exact stable f listed
  · obtain ⟨k, named⟩ := represents.named e.1 v before
    rw [named, isImmutable_text] at immutable
    rw [named, represents.stored] at before
    obtain ⟨r, inside, rfl⟩ := Option.map_eq_some_iff.mp before
    have now := stored e mem
    rw [named, after.stored, putAll_writtenOnce once immutable inside] at now
    exact Option.some.inj now
  · obtain ⟨M, config, linked⟩ := reachable.linked
    exact links_stored linked (stored e mem)

end Knowledger

namespace Knowledger.Storage

open Js Txn Uri

variable [Sha256] {s : Store}

/-! ## Requests -/

/-- A call of the ledger. -/
inductive Request
  | bootstrap (config : Value)
  | execute (command : Value)

def Request.program (ctx : TxContext) : Request → Tx Value
  | .bootstrap config => Knowledger.bootstrap ctx config
  | .execute command => Knowledger.execute ctx command

/-- Nothing is stored yet, or what a run of the domain stores. -/
def Known (s : Store) : Prop := s = Store.empty ∨ Reachable s

theorem reachable_commit (reachable : Reachable s) (c : Call) : Reachable (c.commit s) := by
  obtain ⟨s₀, calls, bootstrapped, rfl⟩ := reachable
  refine ⟨s₀, calls ++ [c], bootstrapped, ?_⟩
  rw [runAll_append]
  rfl

/-- **Honest write sets.**  What a successful call writes on a known store is honest, and the
store after it is reachable. -/
theorem Known.honest (known : Known s) {ctx : TxContext} {request : Request} {r : Value}
    {w : Writes String Value} (run : (request.program ctx).simulate s [] = .ok (r, w)) :
    Honest s w ∧ Reachable (w.over s) := by
  cases request with
  | bootstrap configInput =>
      rcases known with rfl | reachable
      · have start : Represents State.empty (Writes.over [] Store.empty) := by
          rw [Writes.over_nil]
          exact represents_empty
        have bootstrapped : Bootstrapped (w.over Store.empty) := ⟨ctx, configInput, r, w, run, rfl⟩
        have reachable : Reachable (w.over Store.empty) := ⟨_, [], bootstrapped, rfl⟩
        obtain ⟨c, rfl, rfl⟩ := (bootstrap_ok start).mp run
        have once : ∀ e ∈ c.entries, WrittenOnce State.empty e := fun e _ => .fresh rfl
        exact ⟨honest_putAll represents_empty c.stable_entries once reachable, reachable⟩
      · obtain ⟨L, config, holds⟩ := reachable.holds
        have represents : Represents L (Writes.over [] s) := by
          rw [Writes.over_nil]
          exact holds.represents
        obtain ⟨c, rfl, rfl⟩ := (bootstrap_ok represents).mp run
        obtain ⟨valid, stored⟩ := State.config_eq.mp holds.core.config_eq
        rw [c.fresh] at stored
        cases stored
  | execute command =>
      rcases known with rfl | reachable
      · rcases (execute_ok represents_empty).mp run with ⟨replay, rfl, rfl⟩ | ⟨x, rfl, rfl⟩
        · cases replay.config_eq
        · cases x.config_eq
      · obtain ⟨L, config, holds⟩ := reachable.holds
        have committed : Call.commit ⟨ctx, command⟩ s = w.over s := by
          rw [Call.commit, Knowledger.commit, show (Call.program ⟨ctx, command⟩).simulate s [] =
            .ok (r, w) from run]
        have next : Reachable (w.over s) := committed ▸ reachable_commit reachable ⟨ctx, command⟩
        rcases (execute_ok holds.represents).mp run with ⟨replay, rfl, rfl⟩ | ⟨x, rfl, rfl⟩
        · have nothing : ∀ e ∈ ([] : List Entry), WrittenOnce L e := List.forall_mem_nil _
          exact ⟨honest_putAll holds.represents (List.forall_mem_nil _) nothing next, next⟩
        · exact ⟨honest_putAll holds.represents x.stable_entries (x.writtenOnce holds.core) next,
            next⟩

end Knowledger.Storage
