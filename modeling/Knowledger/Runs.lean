import Knowledger.Resolution

/-!
# Runs

A ledger starts empty, is bootstrapped once, and then executes calls: a call that throws
changes nothing, any other call has all its writes applied.  The store of every reachable
state represents a typed state that keeps the invariant (`Reachable.holds`).
-/

namespace Knowledger

open Js Txn

/-! ## Calls -/

/-- The store after a transaction. -/
def commit (p : Tx Value) (s : Store) : Store :=
  match p.simulate s [] with
  | .ok (_, w) => w.over s
  | .error _ => s

/-- The arguments of `execute`. -/
structure Call where
  ctx : TxContext
  command : Value

def Store.empty : Store := fun _ => none

variable [Sha256]

def Call.program (c : Call) : Tx Value := execute c.ctx c.command

def Call.commit (c : Call) (s : Store) : Store := Knowledger.commit c.program s

/-- The store after the calls in order. -/
def runAll : List Call → Store → Store
  | [], s => s
  | c :: calls, s => runAll calls (c.commit s)

omit [Sha256] in
/-- The store after the one successful bootstrap. -/
def Bootstrapped (s : Store) : Prop :=
  ∃ ctx config result w, (bootstrap ctx config).simulate Store.empty [] = .ok (result, w) ∧
    s = w.over Store.empty

/-- A state of a run. -/
def Reachable (s : Store) : Prop := ∃ s₀ calls, Bootstrapped s₀ ∧ s = runAll calls s₀

theorem runAll_append (before between : List Call) (s : Store) :
    runAll (before ++ between) s = runAll between (runAll before s) := by
  induction before generalizing s with
  | nil => rfl
  | cons c before ih => exact ih (c.commit s)

/-- The call committed a change of an agreement's status: an activation, a withdrawal, a
suspension, or a decision that suspends. -/
def Call.changesStatus (c : Call) (s : Store) : Bool :=
  match c.program.simulate s [], validateCommand c.command with
  | .ok (result, _ :: _), .ok request => Knowledger.changesStatus request.type result
  | _, _ => false

/-- The changes of status that the calls commit. -/
def statusChanges : List Call → Store → Nat
  | [], _ => 0
  | c :: calls, s => (if c.changesStatus s then 1 else 0) + statusChanges calls (c.commit s)

/-! ## The invariant along a run -/

/-- The store holds a typed state that keeps the invariant. -/
structure Holds (s : Store) (L : State) (config : DomainConfig) : Prop where
  represents : Represents L s
  core : Core L config
  live : Live L config

theorem represents_putAll {L : State} {s : Store} (h : Represents L s) (es : List Entry) :
    Represents (L.putAll es) ((putAll [] es).over s) :=
  Represents.putAll (by rwa [Writes.over_nil]) es

theorem Bootstrapped.holds {s : Store} (b : Bootstrapped s) :
    ∃ L config, Holds s L config ∧ L.epochRecord = some ⟨0, SafeInt.zero_valid⟩ := by
  obtain ⟨ctx, input, result, w, run, rfl⟩ := b
  have empty : Represents State.empty Store.empty := represents_empty
  have start : Represents State.empty (Writes.over [] Store.empty) := by
    rwa [Writes.over_nil]
  obtain ⟨c, rfl, rfl⟩ := (bootstrap_ok start).mp run
  exact ⟨_, _, ⟨represents_putAll empty _, c.core, c.live⟩, c.epochRecord_eq⟩

/-- What a call leaves of a state: grown, or untouched where it threw or was replayed. -/
structure Follows (L M : State) (changed : Bool) : Prop where
  grows : Grows L M
  epoch : M.epoch = L.epoch + if changed then 1 else 0
  still : changed = false → Still L M

theorem Follows.refl (L : State) : Follows L L false :=
  ⟨⟨by simp, by simp, by simp⟩, rfl, fun _ => ⟨fun _ => rfl, fun _ => rfl⟩⟩

theorem putAll_ne_nil (k : Key) (r : k.Record) (es : List Entry) (w : Writes String Value) :
    ∃ e rest, putAll w (es ++ [⟨k, r⟩]) = e :: rest := by
  rw [putAll_append, putAll_cons, putAll_nil]
  generalize putAll w es = u
  cases u with
  | nil => exact ⟨_, _, rfl⟩
  | cons e rest =>
      simp only [Writes.set]
      split_ifs <;> exact ⟨_, _, rfl⟩

/-- A performed command writes at least its idempotency record. -/
theorem Execution.writes {L : State} {ctx : TxContext} {command : Value}
    (c : Execution L ctx command) : ∃ e rest, putAll [] c.entries = e :: rest :=
  putAll_ne_nil _ _ _ _

/-- **One step.**  A call keeps the invariant, and counts its change of status. -/
theorem Holds.commit {s : Store} {L : State} {config : DomainConfig} (h : Holds s L config)
    (c : Call) : ∃ M, Holds (c.commit s) M config ∧ Follows L M (c.changesStatus s) := by
  unfold Call.commit Knowledger.commit Call.changesStatus
  cases run : c.program.simulate s [] with
  | error e => exact ⟨L, h, Follows.refl L⟩
  | ok outcome =>
      obtain ⟨result, w⟩ := outcome
      rcases (execute_ok h.represents).mp run with ⟨replay, rfl, rfl⟩ | ⟨x, rfl, rfl⟩
      · refine ⟨L, ?_, Follows.refl L⟩
        simpa only [Writes.over_nil] using h
      · obtain ⟨e, rest, writes⟩ := x.writes
        refine ⟨L.putAll x.entries, ⟨represents_putAll h.represents _, x.core h.core,
          x.live h.core h.live⟩, ?_⟩
        rw [writes, x.request_eq]
        exact ⟨x.grows h.core, x.epoch, x.still⟩

theorem Holds.runAll {s : Store} {L : State} {config : DomainConfig} (h : Holds s L config)
    (calls : List Call) : ∃ M, Holds (runAll calls s) M config ∧ Grows L M ∧
      M.epoch = L.epoch + statusChanges calls s ∧ (statusChanges calls s = 0 → Still L M) := by
  induction calls generalizing s L with
  | nil => exact ⟨L, h, (Follows.refl L).grows, rfl, fun _ => (Follows.refl L).still rfl⟩
  | cons c calls ih =>
      obtain ⟨M, next, follows⟩ := h.commit c
      obtain ⟨N, last, grows, epoch, still⟩ := ih next
      refine ⟨N, last, follows.grows.trans grows, ?_, fun none => ?_⟩
      · rw [epoch, follows.epoch, statusChanges, Nat.add_assoc]
      · rw [statusChanges, Nat.add_eq_zero_iff] at none
        have first := follows.still (by simpa using none.1)
        have rest := still none.2
        exact ⟨fun slot => (rest.active slot).trans (first.active slot),
          fun id => (rest.agreement id).trans (first.agreement id)⟩

theorem Reachable.holds {s : Store} (reachable : Reachable s) :
    ∃ L config, Holds s L config := by
  obtain ⟨s₀, calls, b, rfl⟩ := reachable
  obtain ⟨L, config, h, -⟩ := b.holds
  obtain ⟨M, h, -⟩ := h.runAll calls
  exact ⟨M, config, h⟩

end Knowledger
