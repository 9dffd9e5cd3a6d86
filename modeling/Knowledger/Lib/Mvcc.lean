import Knowledger.Lib.Machine
import Knowledger.Lib.Program

/-!
# Optimistic commits

Calls are simulated on committed states, however stale, and committed later: a commit is
accepted when every key that the simulation read still has the version it was read at, and
then all its writes are applied.  The accepted calls in the order of their commits are a
serial execution (`Sound.serial`), and nothing that committed between the simulation of a call
and its own commit wrote a key that it had read (`Sound.isolated`).
-/

namespace Txn.Mvcc

variable {C K V E α : Type} [DecidableEq K]

/-- A simulated call: how many commits it saw, its result, the versions of the keys it read,
and its writes. -/
structure Simulated (C K V α : Type) where
  call : C
  seen : Nat
  result : α
  reads : List (K × Nat)
  writes : Writes K V

/-- The store after the commits, the last one first. -/
def storeAfter (s : K → Option V) : List (Simulated C K V α) → K → Option V
  | [] => s
  | t :: log => t.writes.over (storeAfter s log)

/-- The number of the last commit that wrote the key. -/
def version : List (Simulated C K V α) → K → Nat
  | [], _ => 0
  | t :: log, k => if k ∈ t.writes.map Prod.fst then log.length + 1 else version log k

/-- No key that was read has been written since. -/
def Current (log : List (Simulated C K V α)) (t : Simulated C K V α) : Prop :=
  ∀ r ∈ t.reads, version log r.1 = r.2

instance (log : List (Simulated C K V α)) (t : Simulated C K V α) : Decidable (Current log t) :=
  inferInstanceAs (Decidable (∀ r ∈ t.reads, version log r.1 = r.2))

/-- The commits, the last one first, and the simulated calls that may still be committed. -/
structure State (C K V α : Type) where
  log : List (Simulated C K V α)
  pending : List (Simulated C K V α)

def start : State C K V α := ⟨[], []⟩

inductive Event (C : Type) where
  /-- A call is simulated on the state after the first `seen` commits. -/
  | simulate (call : C) (seen : Nat)
  /-- One of the simulated calls is sent to be committed. -/
  | commit (i : Nat)

/-- The simulation of a call on a committed state. -/
def simulateOn (program : C → Program K V E α) (s : K → Option V)
    (log : List (Simulated C K V α)) (c : C) : Option (Simulated C K V α) :=
  match (program c).simulate (storeAfter s log) [] with
  | .error _ => none
  | .ok (a, w) => some ⟨c, log.length, a,
      ((program c).readSet (storeAfter s log) []).map fun k => (k, version log k), w⟩

def step (program : C → Program K V E α) (s : K → Option V) (st : State C K V α) :
    Event C → Option (State C K V α)
  | .simulate c seen =>
      match simulateOn program s (st.log.drop (st.log.length - seen)) c with
      | none => some st
      | some t => some { st with pending := st.pending ++ [t] }
  | .commit i =>
      match st.pending[i]? with
      | none => none
      | some t =>
          let rest := st.pending.eraseIdx i
          if Current st.log t then some ⟨t :: st.log, rest⟩ else some ⟨st.log, rest⟩

variable {program : C → Program K V E α} {s : K → Option V} {log before : List (Simulated C K V α)}
  {t u : Simulated C K V α} {st st' : State C K V α}

/-! ## Versions -/

theorem version_le (k : K) : version log k ≤ log.length := by
  induction log with
  | nil => exact Nat.le_refl 0
  | cons t log ih =>
      rw [version]
      split_ifs
      · exact Nat.le_refl _
      · exact ih.trans (Nat.le_succ _)

/-- A key with an old version has its old value: nothing has written it. -/
theorem unwritten {later : List (Simulated C K V α)} {k : K}
    (same : version (later ++ log) k = version log k) :
    (∀ u ∈ later, k ∉ u.writes.map Prod.fst) ∧
      storeAfter s (later ++ log) k = storeAfter s log k := by
  induction later with
  | nil => exact ⟨List.forall_mem_nil _, rfl⟩
  | cons u later ih =>
      rw [List.cons_append, version] at same
      split_ifs at same with written
      · have old : version log k ≤ log.length := version_le k
        rw [← same, List.length_append] at old
        omega
      · obtain ⟨others, value⟩ := ih same
        refine ⟨List.forall_mem_cons.mpr ⟨written, others⟩, ?_⟩
        rw [List.cons_append, storeAfter, Writes.over_of_not_mem written, value]

/-! ## Simulations and commits -/

/-- The call was simulated on the state after these commits. -/
structure SimulatedOn (program : C → Program K V E α) (s : K → Option V)
    (log : List (Simulated C K V α)) (t : Simulated C K V α) : Prop where
  seen : t.seen = log.length
  run : (program t.call).simulate (storeAfter s log) [] = .ok (t.result, t.writes)
  reads : t.reads = ((program t.call).readSet (storeAfter s log) []).map fun k =>
    (k, version log k)

theorem simulateOn_some {c : C} (simulated : simulateOn program s log c = some t) :
    t.call = c ∧ SimulatedOn program s log t := by
  rw [simulateOn] at simulated
  split at simulated
  · cases simulated
  · next run =>
      cases simulated
      exact ⟨rfl, rfl, run, rfl⟩

/-- What is current runs the same on the present state, and none of its keys was written. -/
theorem SimulatedOn.current {later : List (Simulated C K V α)} (on : SimulatedOn program s log t)
    (current : Current (later ++ log) t) :
    (program t.call).simulate (storeAfter s (later ++ log)) [] = .ok (t.result, t.writes) ∧
      ∀ k ∈ (program t.call).readSet (storeAfter s (later ++ log)) [],
        ∀ u ∈ later, k ∉ u.writes.map Prod.fst := by
  have kept : ∀ k ∈ (program t.call).readSet (storeAfter s log) [],
      version (later ++ log) k = version log k := by
    intro k read
    exact current (k, version log k) (on.reads ▸ List.mem_map_of_mem read)
  have agree : ∀ k ∈ (program t.call).readSet (storeAfter s log) [],
      storeAfter s log k = storeAfter s (later ++ log) k :=
    fun k read => (unwritten (kept k read)).2.symm
  obtain ⟨runs, reads⟩ := Program.simulate_congr (program t.call) agree
  rw [runs, reads]
  exact ⟨on.run, fun k read => (unwritten (s := s) (kept k read)).1⟩

/-- What holds in every state of a run: every simulated call ran on a committed state, and
was current when it was committed. -/
structure Sound (program : C → Program K V E α) (s : K → Option V) (st : State C K V α) :
    Prop where
  pending : ∀ t ∈ st.pending, ∃ log, log <:+ st.log ∧ SimulatedOn program s log t
  committed : ∀ t before, t :: before <:+ st.log →
    ∃ log, log <:+ before ∧ SimulatedOn program s log t ∧ Current before t

theorem start_sound : Sound program s start where
  pending := List.forall_mem_nil _
  committed t before suffix := by
    have := suffix.length_le
    simp [start] at this

/-- **One event** keeps it. -/
theorem Sound.step (sound : Sound program s st) {e : Event C}
    (taken : step program s st e = some st') : Sound program s st' := by
  cases e with
  | simulate c seen =>
      rw [Mvcc.step] at taken
      split at taken
      · obtain rfl := Option.some.inj taken
        exact sound
      · next t simulated =>
          obtain rfl := Option.some.inj taken
          refine ⟨fun u mem => ?_, sound.committed⟩
          rcases List.mem_append.mp mem with old | new
          · exact sound.pending u old
          · obtain rfl := List.mem_singleton.mp new
            exact ⟨_, List.drop_suffix _ _, (simulateOn_some simulated).2⟩
  | commit i =>
      rw [Mvcc.step] at taken
      split at taken
      · cases taken
      · next t found =>
          have rest : ∀ u ∈ st.pending.eraseIdx i, u ∈ st.pending := fun u mem =>
            List.mem_of_mem_eraseIdx mem
          dsimp only at taken
          split_ifs at taken with current
          · obtain rfl := Option.some.inj taken
            obtain ⟨log, suffix, on⟩ := sound.pending t (List.mem_of_getElem? found)
            refine ⟨fun u mem => ?_, fun u before last => ?_⟩
            · obtain ⟨log, suffix, on⟩ := sound.pending u (rest u mem)
              exact ⟨log, suffix.trans (List.suffix_cons _ _), on⟩
            · rcases List.suffix_cons_iff.mp last with same | older
              · obtain ⟨rfl, rfl⟩ := List.cons.inj same
                exact ⟨log, suffix, on, current⟩
              · exact sound.committed u before older
          · obtain rfl := Option.some.inj taken
            exact ⟨fun u mem => sound.pending u (rest u mem), sound.committed⟩

theorem run_sound {es : List (Event C)} (taken : Machine.run (step program s) start es = some st) :
    Sound program s st :=
  Machine.run_keeps (fun _ _ _ sound taken => sound.step taken) start_sound taken

/-- **Commits are serial**: a committed call does on the state after the commits before it what
it did when it was simulated. -/
theorem Sound.serial (sound : Sound program s st) (committed : t :: before <:+ st.log) :
    (program t.call).simulate (storeAfter s before) [] = .ok (t.result, t.writes) := by
  obtain ⟨log, ⟨later, rfl⟩, on, current⟩ := sound.committed t before committed
  exact (on.current current).1

/-- **Commits are isolated**: what committed after a call was simulated, and before the call was
committed, wrote no key that the call reads. -/
theorem Sound.isolated (sound : Sound program s st) (committed : t :: before <:+ st.log)
    {earlier : List (Simulated C K V α)} (between : u :: earlier <:+ before)
    (unseen : t.seen ≤ earlier.length) :
    ∀ k ∈ (program t.call).readSet (storeAfter s before) [], k ∉ u.writes.map Prod.fst := by
  obtain ⟨log, suffix, on, current⟩ := sound.committed t before committed
  have after : log <:+ earlier :=
    List.suffix_of_suffix_length_le suffix ((List.suffix_cons u earlier).trans between)
      (on.seen ▸ unseen)
  obtain ⟨first, rfl⟩ := after
  obtain ⟨last, rfl⟩ := between
  rw [← List.cons_append, ← List.append_assoc] at current ⊢
  intro k read
  exact (on.current current).2 k read u (by simp)

end Txn.Mvcc
