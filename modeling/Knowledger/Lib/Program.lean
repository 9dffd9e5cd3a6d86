import Mathlib

/-!
# Transaction programs

A program that reads and writes one key-value store through an interface of two
operations.  `Query` is the part of the interface that only reads; `Program` adds
writes.  Both are syntax, so the keys a run read can be named: two stores that agree
on them give one run (`Program.simulate_congr`).

`Program.simulate` runs a program on a snapshot and buffers its writes, reading its
own writes back.  Nothing is written when a run fails.
-/

namespace Txn

variable {K V E α β : Type}

/-! ## Buffered writes -/

/-- The writes of one run in the order of their first write, one entry a key. -/
abbrev Writes (K V : Type) := List (K × V)

/-- The value buffered for `k`. -/
def Writes.find [DecidableEq K] : Writes K V → K → Option V
  | [], _ => none
  | (k', v) :: w, k => if k' = k then some v else Writes.find w k

/-- Buffer `v` for `k`: a later write of a key replaces the earlier one in its place. -/
def Writes.set [DecidableEq K] : Writes K V → K → V → Writes K V
  | [], k, v => [(k, v)]
  | (k', v') :: w, k, v => if k' = k then (k, v) :: w else (k', v') :: Writes.set w k v

/-- The store `s` with the buffered writes applied. -/
def Writes.over [DecidableEq K] (w : Writes K V) (s : K → Option V) : K → Option V :=
  fun k => (w.find k).or (s k)

section Buffer

variable [DecidableEq K] {s : K → Option V} {w : Writes K V} {k k' : K} {v v' : V}

@[simp] theorem Writes.find_nil : Writes.find ([] : Writes K V) k = none := rfl

theorem Writes.find_cons :
    Writes.find ((k', v) :: w) k = if k' = k then some v else Writes.find w k := rfl

@[simp] theorem Writes.over_nil : Writes.over ([] : Writes K V) s = s := by
  funext k
  simp [Writes.over]

theorem Writes.find_set :
    (w.set k v).find k' = if k = k' then some v else w.find k' := by
  induction w with
  | nil => simp [Writes.set, Writes.find]
  | cons entry w ih =>
      obtain ⟨j, u⟩ := entry
      by_cases same : j = k
      · subst same
        by_cases hit : j = k' <;> simp [Writes.set, Writes.find, hit]
      · simp only [Writes.set, same, if_false, Writes.find_cons, ih]
        by_cases hit : j = k'
        · subst hit
          simp [Ne.symm same]
        · simp [hit]

theorem Writes.over_set : (w.set k v).over s = Function.update (w.over s) k (some v) := by
  funext j
  by_cases hit : k = j
  · subst hit
    simp [Writes.over, Writes.find_set]
  · simp [Writes.over, Writes.find_set, hit, Function.update_of_ne (Ne.symm hit)]

theorem Writes.over_apply : w.over s k = (w.find k).or (s k) := rfl

theorem Writes.mem_set_key {j : K} :
    j ∈ (w.set k v).map Prod.fst ↔ j = k ∨ j ∈ w.map Prod.fst := by
  induction w with
  | nil => simp [Writes.set]
  | cons entry w ih =>
      obtain ⟨i, u⟩ := entry
      by_cases same : i = k
      · subst same
        simp [Writes.set]
      · simp only [Writes.set, same, if_false, List.map_cons, List.mem_cons, ih]
        tauto

/-- A key that is not buffered is appended. -/
theorem Writes.mem_set {e : K × V} (mem : e ∈ w.set k v) : e = (k, v) ∨ e ∈ w := by
  induction w with
  | nil => exact Or.inl (List.mem_singleton.mp mem)
  | cons entry w ih =>
      unfold Writes.set at mem
      split_ifs at mem with same
      · rcases List.mem_cons.mp mem with new | later
        · exact Or.inl new
        · exact Or.inr (List.mem_cons_of_mem _ later)
      · rcases List.mem_cons.mp mem with first | later
        · exact Or.inr (first ▸ List.mem_cons_self)
        · rcases ih later with new | old
          · exact Or.inl new
          · exact Or.inr (List.mem_cons_of_mem _ old)

theorem Writes.set_of_not_mem (fresh : k ∉ w.map Prod.fst) :
    w.set k v = w ++ [(k, v)] := by
  induction w with
  | nil => rfl
  | cons entry w ih =>
      obtain ⟨j, u⟩ := entry
      simp only [List.map_cons, List.mem_cons, not_or] at fresh
      simp [Writes.set, Ne.symm fresh.1, ih fresh.2]

theorem Writes.find_eq_none : w.find k = none ↔ k ∉ w.map Prod.fst := by
  induction w with
  | nil => simp
  | cons entry w ih =>
      obtain ⟨j, u⟩ := entry
      by_cases hit : j = k
      · simp [Writes.find, hit]
      · simp [Writes.find, hit, ih, Ne.symm hit]

theorem Writes.over_of_not_mem (fresh : k ∉ w.map Prod.fst) : w.over s k = s k := by
  simp [Writes.over, Writes.find_eq_none.mpr fresh]

theorem Writes.mem_of_find (hit : w.find k = some v) : (k, v) ∈ w := by
  induction w with
  | nil => simp at hit
  | cons entry w ih =>
      obtain ⟨j, u⟩ := entry
      by_cases same : j = k
      · simp only [Writes.find, same, if_true, Option.some.injEq] at hit
        simp [same, hit]
      · simp only [Writes.find, same, if_false] at hit
        exact List.mem_cons_of_mem _ (ih hit)

/-- With one entry a key, every buffered pair is the one read back. -/
theorem Writes.find_of_mem (nodup : (w.map Prod.fst).Nodup) (mem : (k, v) ∈ w) :
    w.find k = some v := by
  induction w with
  | nil => simp at mem
  | cons entry w ih =>
      obtain ⟨j, u⟩ := entry
      simp only [List.map_cons, List.nodup_cons] at nodup
      rcases List.mem_cons.mp mem with same | later
      · cases same
        simp [Writes.find]
      · have differs : j ≠ k := by
          rintro rfl
          exact nodup.1 (List.mem_map.mpr ⟨(j, v), later, rfl⟩)
        simp [Writes.find, differs, ih nodup.2 later]

theorem Writes.nodup_set (nodup : (w.map Prod.fst).Nodup) :
    ((w.set k v).map Prod.fst).Nodup := by
  induction w with
  | nil => simp [Writes.set]
  | cons entry w ih =>
      obtain ⟨j, u⟩ := entry
      simp only [List.map_cons, List.nodup_cons] at nodup
      by_cases same : j = k
      · subst same
        simpa [Writes.set] using nodup
      · simp only [Writes.set, if_neg same, List.map_cons, List.nodup_cons, mem_set_key, not_or]
        exact ⟨⟨same, nodup.1⟩, ih nodup.2⟩

end Buffer

/-! ## Queries -/

/-- A program that only reads. -/
inductive Query (K V E α : Type) : Type
  | done (a : α)
  | fail (e : E)
  | get (k : K) (next : Option V → Query K V E α)

def Query.bind : Query K V E α → (α → Query K V E β) → Query K V E β
  | .done a, f => f a
  | .fail e, _ => .fail e
  | .get k next, f => .get k fun v => (next v).bind f

/-- Run `q`; where it fails, go on with `handler`. -/
def Query.handle : Query K V E α → (E → Query K V E α) → Query K V E α
  | .done a, _ => .done a
  | .fail e, handler => handler e
  | .get k next, handler => .get k fun v => (next v).handle handler

instance : Monad (Query K V E) where
  pure := .done
  bind := Query.bind

instance : MonadExcept E (Query K V E) where
  throw := .fail
  tryCatch := Query.handle

/-- Read one key. -/
def Query.read (k : K) : Query K V E (Option V) := .get k .done

/-- A computation that touches no state. -/
def Query.ofExcept : Except E α → Query K V E α
  | .ok a => .done a
  | .error e => .fail e

instance : MonadLift (Except E) (Query K V E) where
  monadLift := Query.ofExcept

/-- The result of `q` on the store `s`. -/
def Query.eval : Query K V E α → (K → Option V) → Except E α
  | .done a, _ => .ok a
  | .fail e, _ => .error e
  | .get k next, s => (next (s k)).eval s

section Eval

variable {s : K → Option V}

@[simp] theorem Query.eval_pure (a : α) : (pure a : Query K V E α).eval s = .ok a := rfl

@[simp] theorem Query.eval_throw (e : E) :
    (throw e : Query K V E α).eval s = .error e := rfl

@[simp] theorem Query.eval_bind (q : Query K V E α) (f : α → Query K V E β) :
    (q >>= f).eval s = (q.eval s >>= fun a => (f a).eval s) := by
  change (q.bind f).eval s = _
  induction q with
  | done a => rfl
  | fail e => rfl
  | get k next ih => exact ih (s k)

@[simp] theorem Query.eval_map (f : α → β) (q : Query K V E α) :
    (f <$> q).eval s = f <$> q.eval s := by
  change (q >>= fun a => pure (f a)).eval s = _
  rw [Query.eval_bind]
  cases q.eval s <;> rfl

@[simp] theorem Query.eval_read (k : K) :
    (Query.read k : Query K V E (Option V)).eval s = .ok (s k) := rfl

@[simp] theorem Query.eval_ofExcept (x : Except E α) :
    (Query.ofExcept x : Query K V E α).eval s = x := by
  cases x <;> rfl

@[simp] theorem Query.eval_lift (x : Except E α) :
    (liftM x : Query K V E α).eval s = x :=
  Query.eval_ofExcept x

@[simp] theorem Query.eval_tryCatch (q : Query K V E α) (handler : E → Query K V E α) :
    (tryCatch q handler : Query K V E α).eval s =
      tryCatch (q.eval s) fun e => (handler e).eval s := by
  change (q.handle handler).eval s = _
  induction q with
  | done a => rfl
  | fail e => rfl
  | get k next ih => exact ih (s k)

end Eval

/-! ## Programs -/

/-- A program that reads and writes. -/
inductive Program (K V E α : Type) : Type
  | done (a : α)
  | fail (e : E)
  | get (k : K) (next : Option V → Program K V E α)
  | put (k : K) (v : V) (next : Program K V E α)

def Program.bind : Program K V E α → (α → Program K V E β) → Program K V E β
  | .done a, f => f a
  | .fail e, _ => .fail e
  | .get k next, f => .get k fun v => (next v).bind f
  | .put k v next, f => .put k v (next.bind f)

instance : Monad (Program K V E) where
  pure := .done
  bind := Program.bind

/-- A query as a program. -/
def Query.toProgram : Query K V E α → Program K V E α
  | .done a => .done a
  | .fail e => .fail e
  | .get k next => .get k fun v => (next v).toProgram

instance : MonadLift (Query K V E) (Program K V E) where
  monadLift := Query.toProgram

/-- Write one key. -/
def Program.write (k : K) (v : V) : Program K V E Unit := .put k v (.done ())

/-- Run `p` on the snapshot `s` with the writes `w` buffered so far: its result and the
writes buffered at its end, or the error it failed with. -/
def Program.simulate [DecidableEq K] :
    Program K V E α → (K → Option V) → Writes K V → Except E (α × Writes K V)
  | .done a, _, w => .ok (a, w)
  | .fail e, _, _ => .error e
  | .get k next, s, w => (next (w.over s k)).simulate s w
  | .put k v next, s, w => next.simulate s (w.set k v)

/-- The keys a run reads from the snapshot; a key it wrote before is read from the
buffer. -/
def Program.readSet [DecidableEq K] :
    Program K V E α → (K → Option V) → Writes K V → List K
  | .done _, _, _ => []
  | .fail _, _, _ => []
  | .get k next, s, w =>
      let rest := (next (w.over s k)).readSet s w
      if (w.find k).isSome then rest else k :: rest
  | .put k v next, s, w => next.readSet s (w.set k v)

section Simulate

variable [DecidableEq K] {s s' : K → Option V} {w w' : Writes K V}

@[simp] theorem Program.simulate_pure (a : α) :
    (pure a : Program K V E α).simulate s w = .ok (a, w) := rfl

@[simp] theorem Program.simulate_write (k : K) (v : V) :
    (Program.write k v : Program K V E Unit).simulate s w = .ok ((), w.set k v) := rfl

@[simp] theorem Program.simulate_bind (p : Program K V E α) (f : α → Program K V E β) :
    (p >>= f).simulate s w = (p.simulate s w >>= fun r => (f r.1).simulate s r.2) := by
  change (p.bind f).simulate s w = _
  induction p generalizing w with
  | done a => rfl
  | fail e => rfl
  | get k next ih => exact ih (w.over s k)
  | put k v next ih => exact ih

theorem Program.simulate_bind_ok {p : Program K V E α} {f : α → Program K V E β} {b : β} :
    (p >>= f).simulate s w = .ok (b, w') ↔
      ∃ a w'', p.simulate s w = .ok (a, w'') ∧ (f a).simulate s w'' = .ok (b, w') := by
  rw [Program.simulate_bind]
  cases p.simulate s w with
  | error e => exact ⟨nofun, fun ⟨_, _, run, _⟩ => nomatch run⟩
  | ok r => exact ⟨fun run => ⟨r.1, r.2, rfl, run⟩, fun ⟨_, _, same, run⟩ => by cases same; exact run⟩

@[simp] theorem Query.simulate_toProgram (q : Query K V E α) :
    q.toProgram.simulate s w = (q.eval (w.over s) >>= fun a => .ok (a, w)) := by
  induction q with
  | done a => rfl
  | fail e => rfl
  | get k next ih => exact ih (w.over s k)

@[simp] theorem Query.simulate_lift (q : Query K V E α) :
    (liftM q : Program K V E α).simulate s w = (q.eval (w.over s) >>= fun a => .ok (a, w)) :=
  Query.simulate_toProgram q

/-- A run keeps one buffered entry a key. -/
theorem Program.simulate_nodup {p : Program K V E α} {a : α}
    (nodup : (w.map Prod.fst).Nodup) (run : p.simulate s w = .ok (a, w')) :
    (w'.map Prod.fst).Nodup := by
  induction p generalizing w with
  | done b =>
      cases run
      exact nodup
  | fail e => cases run
  | get k next ih => exact ih _ nodup run
  | put k v next ih => exact ih (Writes.nodup_set nodup) run

/-- **Locality.**  A run depends on the snapshot only at the keys it read from it. -/
theorem Program.simulate_congr (p : Program K V E α)
    (agree : ∀ k ∈ p.readSet s w, s k = s' k) :
    p.simulate s' w = p.simulate s w ∧ p.readSet s' w = p.readSet s w := by
  induction p generalizing w with
  | done a => exact ⟨rfl, rfl⟩
  | fail e => exact ⟨rfl, rfl⟩
  | put k v next ih => exact ih agree
  | get k next ih =>
      cases buffered : w.find k with
      | some v =>
          have same : w.over s' k = w.over s k := by simp [Writes.over, buffered]
          simp only [Program.readSet, buffered, Option.isSome_some, if_true] at agree
          obtain ⟨runs, reads⟩ := ih (w.over s k) agree
          simp only [Program.simulate, Program.readSet, buffered, Option.isSome_some, if_true,
            same]
          exact ⟨runs, reads⟩
      | none =>
          simp only [Program.readSet, buffered, Option.isSome_none, Bool.false_eq_true,
            if_false, List.mem_cons, forall_eq_or_imp] at agree
          have same : w.over s' k = w.over s k := by simp [Writes.over, buffered, agree.1]
          obtain ⟨runs, reads⟩ := ih (w.over s k) agree.2
          simp only [Program.simulate, Program.readSet, buffered, Option.isSome_none,
            Bool.false_eq_true, if_false, same]
          exact ⟨runs, congrArg _ reads⟩

end Simulate

end Txn
