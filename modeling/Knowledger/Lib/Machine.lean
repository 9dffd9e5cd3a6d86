import Mathlib

/-!
# Machines

A machine takes a state and an event to the next state, or refuses the event.  `run` takes
the events in order; `Always` says that every event of a run meets a condition in the state
it finds.  What every step keeps holds at the end of every run (`run_keeps`), and what every
step relates is related along every run (`run_relates`).
-/

namespace Machine

variable {S E : Type} {step : S → E → Option S}

/-- The state after the events, if the machine takes them all. -/
def run (step : S → E → Option S) : S → List E → Option S
  | s, [] => some s
  | s, e :: es => (step s e).bind fun t => run step t es

/-- Every event meets the condition in the state that takes it. -/
def Always (step : S → E → Option S) (ok : S → E → Prop) : S → List E → Prop
  | _, [] => True
  | s, e :: es => ok s e ∧ ∀ t, step s e = some t → Always step ok t es

instance Always.decidable {ok : S → E → Prop} [∀ s e, Decidable (ok s e)] :
    ∀ s es, Decidable (Always step ok s es)
  | _, [] => isTrue trivial
  | s, e :: es =>
      match taken : step s e with
      | none => decidable_of_iff (ok s e) (by simp [Always, taken])
      | some t =>
          have : Decidable (Always step ok t es) := Always.decidable t es
          decidable_of_iff (ok s e ∧ Always step ok t es) (by simp [Always, taken])

theorem run_cons {s t : S} {e : E} {es : List E} :
    run step s (e :: es) = some t ↔ ∃ u, step s e = some u ∧ run step u es = some t := by
  rw [run, Option.bind_eq_some_iff]

theorem run_append {s t : S} {es fs : List E} :
    run step s (es ++ fs) = some t ↔ ∃ u, run step s es = some u ∧ run step u fs = some t := by
  induction es generalizing s with
  | nil => simp [run]
  | cons e es ih =>
      simp only [List.cons_append, run_cons, ih]
      constructor
      · rintro ⟨u, first, v, rest, last⟩
        exact ⟨v, ⟨u, first, rest⟩, last⟩
      · rintro ⟨v, ⟨u, first, rest⟩, last⟩
        exact ⟨u, first, v, rest, last⟩

/-- The last event of a run. -/
theorem run_concat {s t u : S} {e : E} {es : List E} (before : run step s es = some t)
    (last : step t e = some u) : run step s (es ++ [e]) = some u :=
  run_append.mpr ⟨t, before, run_cons.mpr ⟨u, last, rfl⟩⟩

theorem Always.true (s : S) (es : List E) : Always step (fun _ _ => True) s es := by
  induction es generalizing s with
  | nil => trivial
  | cons e es ih => exact ⟨trivial, fun t _ => ih t⟩

theorem Always.of_forall {ok : E → Prop} (s : S) {es : List E} (all : ∀ e ∈ es, ok e) :
    Always step (fun _ e => ok e) s es := by
  induction es generalizing s with
  | nil => trivial
  | cons e es ih =>
      exact ⟨all e List.mem_cons_self, fun t _ => ih t fun e mem => all e (List.mem_cons_of_mem _ mem)⟩

theorem Always.mono {ok ok' : S → E → Prop} (weaker : ∀ s e, ok s e → ok' s e) {s : S}
    {es : List E} (always : Always step ok s es) : Always step ok' s es := by
  induction es generalizing s with
  | nil => trivial
  | cons e es ih => exact ⟨weaker s e always.1, fun t taken => ih (always.2 t taken)⟩

theorem Always.cons {ok : S → E → Prop} {s t : S} {e : E} {es : List E} (here : ok s e)
    (taken : step s e = some t) (rest : Always step ok t es) : Always step ok s (e :: es) := by
  refine ⟨here, fun u other => ?_⟩
  rw [taken] at other
  exact Option.some.inj other ▸ rest

/-- What every step that meets the condition keeps, every such run keeps. -/
theorem run_keeps_of {ok : S → E → Prop} {P : S → Prop}
    (keeps : ∀ s e t, P s → ok s e → step s e = some t → P t) {s t : S} {es : List E}
    (start : P s) (always : Always step ok s es) (taken : run step s es = some t) : P t := by
  induction es generalizing s with
  | nil =>
      obtain rfl : s = t := by simpa [run] using taken
      exact start
  | cons e es ih =>
      obtain ⟨u, first, rest⟩ := run_cons.mp taken
      exact ih (keeps s e u start always.1 first) (always.2 u first) rest

/-- What every step keeps, every run keeps. -/
theorem run_keeps {P : S → Prop} (keeps : ∀ s e t, P s → step s e = some t → P t) {s t : S}
    {es : List E} (start : P s) (taken : run step s es = some t) : P t :=
  run_keeps_of (fun s e t holds _ => keeps s e t holds) start (Always.true s es) taken

/-- What every step that meets the condition relates, every such run relates. -/
theorem run_relates {ok : S → E → Prop} {R : S → S → Prop} (refl : ∀ s, R s s)
    (trans : ∀ s t u, R s t → R t u → R s u)
    (relates : ∀ s e t, ok s e → step s e = some t → R s t) {s t : S} {es : List E}
    (always : Always step ok s es) (taken : run step s es = some t) : R s t := by
  induction es generalizing s with
  | nil =>
      obtain rfl : s = t := by simpa [run] using taken
      exact refl s
  | cons e es ih =>
      obtain ⟨u, first, rest⟩ := run_cons.mp taken
      exact trans s u t (relates s e u always.1 first) (ih (always.2 u first) rest)

end Machine
