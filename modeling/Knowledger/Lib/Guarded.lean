import Knowledger.Lib.Program

/-!
# Programs over a store that can fail

A program may run on a store whose reads can fail, with a check before each write that it
buffers.  Where every read succeeds, such a run is the plain one on the values that are read,
until a check refuses (`Program.perform_ok`); it depends on nothing else (`Program.perform_congr`).
-/

namespace Txn

variable {K V E α : Type} [DecidableEq K]

/-- Run `p` with the writes `w` buffered so far.  What is buffered is read from the buffer. -/
def Program.perform (read : K → Except E (Option V)) (check : K → V → Except E Unit) :
    Program K V E α → Writes K V → Except E (α × Writes K V)
  | .done a, w => .ok (a, w)
  | .fail e, _ => .error e
  | .get k next, w =>
      match w.find k with
      | some v => (next (some v)).perform read check w
      | none =>
          match read k with
          | .ok value => (next value).perform read check w
          | .error e => .error e
  | .put k v next, w =>
      match check k v with
      | .ok () => next.perform read check (w.set k v)
      | .error e => .error e

variable {s : K → Option V} {read read' : K → Except E (Option V)}
  {check : K → V → Except E Unit} {p : Program K V E α} {w w' : Writes K V} {a : α}

theorem Program.perform_congr (agree : ∀ k, read k = read' k) :
    p.perform read check w = p.perform read' check w := by
  rw [show read = read' from funext agree]

/-- A run that succeeds is the plain run, and each of its writes passed the check. -/
theorem Program.perform_ok (faithful : ∀ k, read k = .ok (s k))
    (run : p.perform read check w = .ok (a, w')) :
    p.simulate s w = .ok (a, w') ∧ ∀ e ∈ w', e ∈ w ∨ check e.1 e.2 = .ok () := by
  induction p generalizing w with
  | done b =>
      cases run
      exact ⟨rfl, fun e mem => .inl mem⟩
  | fail e => cases run
  | get k next ih =>
      rw [Program.perform] at run
      rw [Program.simulate, Writes.over_apply]
      cases buffered : w.find k with
      | some v =>
          rw [buffered] at run
          exact ih (some v) run
      | none =>
          rw [buffered, faithful] at run
          exact ih (s k) run
  | put k v next ih =>
      rw [Program.perform] at run
      cases passes : check k v with
      | error e =>
          rw [passes] at run
          cases run
      | ok u =>
          rw [passes] at run
          obtain ⟨plain, checked⟩ := ih run
          refine ⟨plain, fun e mem => ?_⟩
          rcases checked e mem with earlier | now
          · rcases Writes.mem_set earlier with rfl | old
            · exact .inr passes
            · exact .inl old
          · exact .inr now

end Txn
