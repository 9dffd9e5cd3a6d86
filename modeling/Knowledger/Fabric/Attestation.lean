import Knowledger.Lib.Machine

/-!
# Signing attestations

A connection's signer takes its attestation from a slot that one serializer claims at a time.
The serializer runs its operations one after another, installs the attestation of each before
it starts, and clears the slot behind it.  Releasing a serializer clears the slot at once and
frees it for another, whether or not an operation is in flight.
-/

namespace Knowledger.Signing

variable {A : Type} [DecidableEq A]

/-! ## Operations -/

/-- An operation waits in the queue of its serializer, runs, and returns or throws. -/
inductive Phase
  | waiting
  | inFlight
  | settled (returned : Bool)
  deriving DecidableEq

def Phase.isSettled : Phase → Bool
  | .settled _ => true
  | _ => false

structure Operation (A : Type) where
  serializer : Nat
  attestation : Option A
  phase : Phase
  /-- What the signing requests inside the operation carried, the latest first. -/
  requests : List (Option A)

/-- The slot, its claim, and the operations called so far. -/
structure Context (A : Type) where
  current : Option A
  owner : Option Nat
  serializers : Nat
  calls : Nat
  operation : Nat → Operation A

def Context.new : Context A where
  current := none
  owner := none
  serializers := 0
  calls := 0
  operation _ := ⟨0, none, .waiting, []⟩

inductive Event (A : Type)
  | createAttestationSerializer
  | call (serializer : Nat) (attestation : Option A)
  | start (op : Nat)
  | sign (op : Nat)
  | signOutside
  | settle (op : Nat) (succeeds : Bool)
  | releaseAttestationSerializer (serializer : Option Nat)

def Context.set (s : Context A) (p : Nat) (o : Operation A) : Context A :=
  { s with operation := Function.update s.operation p o }

/-- Every earlier operation of the same serializer has settled. -/
def Context.reached (s : Context A) (p : Nat) : Prop :=
  ∀ q < p, (s.operation q).serializer = (s.operation p).serializer →
    (s.operation q).phase.isSettled = true

instance (s : Context A) (p : Nat) : Decidable (s.reached p) :=
  inferInstanceAs (Decidable (∀ q < p, _ → _))

/-- A call that finds its serializer released is rejected before it is queued. -/
def Context.enqueue (s : Context A) (i : Nat) (attestation : Option A) : Context A :=
  let phase := if s.owner = some i then Phase.waiting else .settled false
  { s.set s.calls ⟨i, attestation, phase, []⟩ with calls := s.calls + 1 }

/-- The queue reaches the operation: it is rejected if its serializer was released, and
otherwise installs its attestation and runs. -/
def Context.start (s : Context A) (p : Nat) : Context A :=
  let o := s.operation p
  if s.owner = some o.serializer then
    { s.set p { o with phase := .inFlight } with current := o.attestation }
  else s.set p { o with phase := .settled false }

/-- `attestationSlot`: the signer takes what is installed. -/
def Context.sign (s : Context A) (p : Nat) : Context A :=
  let o := s.operation p
  { s.set p { o with requests := s.current :: o.requests } with current := none }

/-- The operation ends: one that succeeds with its attestation still installed throws, and
none leaves its attestation behind. -/
def Context.settle (s : Context A) (p : Nat) (succeeds : Bool) : Context A :=
  let o := s.operation p
  let unconsumed := o.attestation.isSome && s.current == o.attestation
  { s.set p { o with phase := .settled (succeeds && !unconsumed) } with
    current := if s.current = o.attestation then none else s.current }

def Context.step (s : Context A) : Event A → Option (Context A)
  | .createAttestationSerializer =>
      -- A claimed context is not claimed again: the call throws.
      if s.owner.isSome then some s
      else some { s with owner := some s.serializers, serializers := s.serializers + 1 }
  | .call i attestation => if i < s.serializers then some (s.enqueue i attestation) else none
  | .start p =>
      if p < s.calls ∧ (s.operation p).phase = .waiting ∧ s.reached p then some (s.start p)
      else none
  | .sign p => if p < s.calls ∧ (s.operation p).phase = .inFlight then some (s.sign p) else none
  | .signOutside => some { s with current := none }
  | .settle p succeeds =>
      if p < s.calls ∧ (s.operation p).phase = .inFlight then some (s.settle p succeeds) else none
  | .releaseAttestationSerializer i =>
      -- The claim of another serializer is left alone.
      if i.isSome ∧ s.owner ≠ i then some s else some { s with owner := none, current := none }

omit [DecidableEq A] in
theorem Context.set_operation (s : Context A) (p q : Nat) (o : Operation A) :
    (s.set p o).operation q = if q = p then o else s.operation q :=
  Function.update_apply _ _ _ _

/-! ## What attestations are attached to -/

/-- Each request carries the attestation of its operation or none, and an operation that
returns has had its attestation consumed by its own signer. -/
structure Operation.Attested (o : Operation A) : Prop where
  carried : ∀ r ∈ o.requests, r = none ∨ r = o.attestation
  once : o.requests.countP Option.isSome ≤ 1
  consumed : o.phase = .settled true → o.attestation.isSome → o.attestation ∈ o.requests

/-- How often the attestation was consumed. -/
def Context.consumptions (s : Context A) (a : A) : Nat :=
  ∑ p ∈ Finset.range s.calls, (s.operation p).requests.count (some a)

/-- How many operations were called with the attestation. -/
def Context.installations (s : Context A) (a : A) : Nat :=
  ((Finset.range s.calls).filter fun p => (s.operation p).attestation = some a).card

/-- No attestation is attached to another operation or consumed twice. -/
structure Context.Attested (s : Context A) : Prop where
  operations : ∀ p < s.calls, (s.operation p).Attested
  once : ∀ a, s.consumptions a ≤ s.installations a

/-- No operation is in flight. -/
def Context.idle (s : Context A) : Prop := ∀ p < s.calls, (s.operation p).phase ≠ .inFlight

/-- The slot is not cleared from outside under an operation in flight. -/
def Undisturbed (s : Context A) : Event A → Prop
  | .releaseAttestationSerializer i => s.owner = i ∨ i = none → s.idle
  | .signOutside => s.idle
  | _ => True

instance (s : Context A) : Decidable s.idle := inferInstanceAs (Decidable (∀ p < s.calls, _))

instance (s : Context A) (e : Event A) : Decidable (Undisturbed s e) := by
  cases e <;> unfold Undisturbed <;> infer_instance

/-! ## Undisturbed runs -/

/-- The slot holds the attestation of the operation in flight until its signer takes it. -/
def Operation.Installed (current : Option A) (o : Operation A) : Prop :=
  (current = o.attestation ∧ o.requests.countP Option.isSome = 0) ∨
    (current = none ∧ o.attestation ∈ o.requests)

/-- One operation is in flight at most, and what is installed is its own. -/
structure Context.Orderly (s : Context A) : Prop where
  owned : ∀ p < s.calls, (s.operation p).phase = .inFlight →
    s.owner = some (s.operation p).serializer
  behind : ∀ q < s.calls, (s.operation q).phase = .inFlight → s.reached q
  installed : ∀ p < s.calls, (s.operation p).phase = .inFlight →
    (s.operation p).Installed s.current
  slot : s.current ≠ none → ∃ p < s.calls, (s.operation p).phase = .inFlight
  unread : ∀ p < s.calls, (s.operation p).phase = .waiting → (s.operation p).requests = []
  attested : ∀ p < s.calls, (s.operation p).Attested

theorem Context.Orderly.new : (Context.new : Context A).Orderly where
  owned p bound := absurd bound (Nat.not_lt_zero p)
  behind p bound := absurd bound (Nat.not_lt_zero p)
  installed p bound := absurd bound (Nat.not_lt_zero p)
  slot occupied := absurd rfl occupied
  unread p bound := absurd bound (Nat.not_lt_zero p)
  attested p bound := absurd bound (Nat.not_lt_zero p)

theorem Operation.Attested.of_unread {o : Operation A} (unread : o.requests = [])
    (running : o.phase ≠ .settled true) : o.Attested where
  carried := by simp [unread]
  once := by simp [unread]
  consumed returned := absurd returned running

/-- An operation in flight has no other beside it. -/
theorem Context.Orderly.alone {s : Context A} (orderly : s.Orderly) {p q : Nat} (hp : p < s.calls)
    (hq : q < s.calls) (flies : (s.operation p).phase = .inFlight)
    (other : (s.operation q).phase = .inFlight) : p = q := by
  have same : (s.operation p).serializer = (s.operation q).serializer :=
    Option.some.inj ((orderly.owned p hp flies).symm.trans (orderly.owned q hq other))
  rcases Nat.lt_trichotomy p q with before | rfl | after
  · have settled := orderly.behind q hq other p before same
    rw [flies] at settled
    cases settled
  · rfl
  · have settled := orderly.behind p hp flies q after same.symm
    rw [other] at settled
    cases settled

theorem Context.reached.set {s : Context A} {p q : Nat} {o : Operation A} (reached : s.reached q)
    (serializer : o.serializer = (s.operation p).serializer)
    (settled : (s.operation p).phase.isSettled = true → o.phase.isSettled = true) :
    (s.set p o).reached q := by
  intro r before same
  rw [set_operation, set_operation] at same
  rw [set_operation]
  have same : (s.operation r).serializer = (s.operation q).serializer := by
    split_ifs at same with hr hq hq
    · rw [hr, hq]
    · rw [hr, ← serializer, same]
    · rw [hq, ← serializer, same]
    · exact same
  have done := reached r before same
  split_ifs with hr
  · exact settled (hr ▸ done)
  · exact done

/-- A waiting operation is rejected. -/
theorem Context.Orderly.reject {s : Context A} (orderly : s.Orderly) {p : Nat} (bound : p < s.calls)
    (waiting : (s.operation p).phase = .waiting) :
    (s.set p { s.operation p with phase := .settled false }).Orderly := by
  have other : ∀ q, ((s.set p { s.operation p with phase := .settled false }).operation q).phase =
      .inFlight → q ≠ p ∧ (s.operation q).phase = .inFlight := by
    intro q flies
    rw [set_operation] at flies
    split_ifs at flies with same
    exact ⟨same, flies⟩
  constructor
  · intro q hq flies
    obtain ⟨differs, flies⟩ := other q flies
    rw [set_operation, if_neg differs]
    exact orderly.owned q hq flies
  · intro q hq flies
    exact (orderly.behind q hq (other q flies).2).set rfl fun _ => rfl
  · intro q hq flies
    obtain ⟨differs, flies⟩ := other q flies
    rw [set_operation, if_neg differs]
    exact orderly.installed q hq flies
  · intro occupied
    obtain ⟨q, hq, flies⟩ := orderly.slot occupied
    refine ⟨q, hq, ?_⟩
    rw [set_operation, if_neg, flies]
    rintro rfl
    rw [waiting] at flies
    cases flies
  · intro q hq unread
    rw [set_operation] at unread ⊢
    split_ifs at unread ⊢ with same
    exact orderly.unread q hq unread
  · intro q hq
    rw [set_operation]
    split_ifs with same
    · exact .of_unread (orderly.unread p bound waiting) (by simp)
    · exact orderly.attested q hq

/-- An operation changes, and the slot with it, while no other is in flight. -/
theorem Context.Orderly.replace {s : Context A} (orderly : s.Orderly) {p : Nat} {o : Operation A}
    {c : Option A} (bound : p < s.calls) (serializer : o.serializer = (s.operation p).serializer)
    (alone : ∀ q < s.calls, (s.operation q).phase = .inFlight → q = p)
    (pending : (s.operation p).phase.isSettled = false)
    (owned : o.phase = .inFlight → s.owner = some o.serializer)
    (behind : o.phase = .inFlight → s.reached p) (installed : o.phase = .inFlight → o.Installed c)
    (slot : c ≠ none → o.phase = .inFlight) (unread : o.phase ≠ .waiting) (attested : o.Attested) :
    ({ s.set p o with current := c } : Context A).Orderly := by
  have self : (s.set p o).operation p = o := by rw [set_operation, if_pos rfl]
  have same : ∀ q < s.calls, ((s.set p o).operation q).phase = .inFlight → q = p := by
    intro q hq flies
    rw [set_operation] at flies
    split_ifs at flies with h
    · exact h
    · exact alone q hq flies
  constructor
  · intro q hq flies
    obtain rfl := same q hq flies
    exact (self.symm ▸ owned) flies
  · intro q hq flies
    obtain rfl := same q hq flies
    refine ((self.symm ▸ behind) flies).set serializer fun settled => ?_
    rw [pending] at settled
    cases settled
  · intro q hq flies
    obtain rfl := same q hq flies
    exact (self.symm ▸ installed) flies
  · intro occupied
    refine ⟨p, bound, ?_⟩
    change ((s.set p o).operation p).phase = _
    rw [self]
    exact slot occupied
  · intro q hq waiting
    change ((s.set p o).operation q).phase = _ at waiting
    change ((s.set p o).operation q).requests = _
    rw [set_operation] at waiting ⊢
    split_ifs at waiting ⊢ with h
    · exact absurd waiting unread
    · exact orderly.unread q hq waiting
  · intro q hq
    change ((s.set p o).operation q).Attested
    rw [set_operation]
    split_ifs with h
    · exact attested
    · exact orderly.attested q hq

theorem Context.Orderly.create {s : Context A} (orderly : s.Orderly) (free : s.owner = none)
    (owner : Option Nat) (serializers : Nat) :
    ({ s with owner := owner, serializers := serializers } : Context A).Orderly where
  owned p bound flies := by
    have claimed := orderly.owned p bound flies
    rw [free] at claimed
    cases claimed
  behind := orderly.behind
  installed := orderly.installed
  slot := orderly.slot
  unread := orderly.unread
  attested := orderly.attested

theorem Context.Orderly.clear {s : Context A} (orderly : s.Orderly) (idle : s.idle)
    (owner : Option Nat) : ({ s with owner := owner, current := none } : Context A).Orderly where
  owned p bound flies := absurd flies (idle p bound)
  behind p bound flies := absurd flies (idle p bound)
  installed p bound flies := absurd flies (idle p bound)
  slot occupied := absurd rfl occupied
  unread := orderly.unread
  attested := orderly.attested

theorem Context.Orderly.enqueue {s : Context A} (orderly : s.Orderly) (i : Nat)
    (attestation : Option A) : (s.enqueue i attestation).Orderly := by
  have old : ∀ q < s.calls, (s.enqueue i attestation).operation q = s.operation q := by
    intro q hq
    change (s.set _ _).operation q = _
    rw [set_operation, if_neg hq.ne]
  have new : ((s.enqueue i attestation).operation s.calls).phase ≠ .inFlight ∧
      ((s.enqueue i attestation).operation s.calls).phase ≠ .settled true ∧
      ((s.enqueue i attestation).operation s.calls).requests = [] := by
    change ((s.set _ _).operation _).phase ≠ _ ∧ ((s.set _ _).operation _).phase ≠ _ ∧
      ((s.set _ _).operation _).requests = _
    rw [set_operation, if_pos rfl]
    dsimp only
    split_ifs <;> exact ⟨by decide, by decide, rfl⟩
  have split : ∀ q < s.calls + 1, q < s.calls ∨ q = s.calls := fun q hq => by omega
  have flying : ∀ q < s.calls + 1, ((s.enqueue i attestation).operation q).phase = .inFlight →
      q < s.calls ∧ (s.operation q).phase = .inFlight := by
    intro q hq flies
    rcases split q hq with hq | rfl
    · rw [old q hq] at flies
      exact ⟨hq, flies⟩
    · exact absurd flies new.1
  constructor
  · intro q hq flies
    obtain ⟨hq, flies⟩ := flying q hq flies
    rw [old q hq]
    exact orderly.owned q hq flies
  · intro q hq flies
    obtain ⟨hq, flies⟩ := flying q hq flies
    intro r before same
    rw [old q hq, old r (before.trans hq)] at same
    rw [old r (before.trans hq)]
    exact orderly.behind q hq flies r before same
  · intro q hq flies
    obtain ⟨hq, flies⟩ := flying q hq flies
    rw [old q hq]
    exact orderly.installed q hq flies
  · intro occupied
    obtain ⟨q, hq, flies⟩ := orderly.slot occupied
    exact ⟨q, Nat.lt_succ_of_lt hq, by rwa [old q hq]⟩
  · intro q hq waiting
    rcases split q hq with hq | rfl
    · rw [old q hq] at waiting ⊢
      exact orderly.unread q hq waiting
    · exact new.2.2
  · intro q hq
    rcases split q hq with hq | rfl
    · rw [old q hq]
      exact orderly.attested q hq
    · exact .of_unread new.2.2 new.2.1

/-- An operation starts only behind those of its serializer, and its serializer alone holds
the claim. -/
theorem Context.Orderly.start {s : Context A} (orderly : s.Orderly) {p : Nat} (bound : p < s.calls)
    (waiting : (s.operation p).phase = .waiting) (reached : s.reached p) : (s.start p).Orderly := by
  unfold Context.start
  dsimp only
  split_ifs with owner
  · have unread := orderly.unread p bound waiting
    refine orderly.replace bound rfl ?_ (by rw [waiting]; rfl) (fun _ => owner) (fun _ => reached)
      (fun _ => Or.inl ⟨rfl, by simp [unread]⟩) (fun _ => rfl) (by simp)
      (.of_unread unread (by simp))
    intro q hq flies
    have same : (s.operation q).serializer = (s.operation p).serializer :=
      Option.some.inj ((orderly.owned q hq flies).symm.trans owner)
    rcases Nat.lt_trichotomy q p with before | rfl | after
    · have settled := reached q before same
      rw [flies] at settled
      cases settled
    · rfl
    · have settled := orderly.behind q hq flies p after same.symm
      rw [waiting] at settled
      cases settled
  · exact orderly.reject bound waiting

/-- The signer of the operation in flight takes its attestation or none. -/
theorem Context.Orderly.sign {s : Context A} (orderly : s.Orderly) {p : Nat} (bound : p < s.calls)
    (flies : (s.operation p).phase = .inFlight) : (s.sign p).Orderly := by
  have attested := orderly.attested p bound
  have installed := orderly.installed p bound flies
  refine orderly.replace bound rfl (fun q hq other => orderly.alone hq bound other flies)
    (by rw [flies]; rfl) (fun _ => orderly.owned p bound flies)
    (fun _ => orderly.behind p bound flies) (fun _ => ?_) (fun h => absurd rfl h)
    (by simp [flies]) ⟨?_, ?_, by simp [flies]⟩
  · rcases installed with ⟨current, none⟩ | ⟨-, mem⟩
    · exact Or.inr ⟨rfl, List.mem_cons.mpr (Or.inl current.symm)⟩
    · exact Or.inr ⟨rfl, List.mem_cons_of_mem _ mem⟩
  · intro r mem
    rcases List.mem_cons.mp mem with rfl | old
    · rcases installed with ⟨current, -⟩ | ⟨current, -⟩
      · exact Or.inr current
      · exact Or.inl current
    · exact attested.carried r old
  · rcases installed with ⟨-, none⟩ | ⟨current, -⟩
    · rw [List.countP_cons, none]
      split_ifs <;> simp
    · simpa [current] using attested.once

theorem Context.Orderly.settle {s : Context A} (orderly : s.Orderly) {p : Nat} (bound : p < s.calls)
    (flies : (s.operation p).phase = .inFlight) (succeeds : Bool) :
    (s.settle p succeeds).Orderly := by
  have attested := orderly.attested p bound
  have installed := orderly.installed p bound flies
  refine orderly.replace bound rfl (fun q hq other => orderly.alone hq bound other flies)
    (by rw [flies]; rfl) (by simp) (by simp) (by simp) (fun occupied => ?_) (by simp)
    ⟨attested.carried, attested.once, ?_⟩
  · split_ifs at occupied with same
    · exact absurd rfl occupied
    · rcases installed with ⟨current, -⟩ | ⟨current, -⟩
      · exact absurd current same
      · exact absurd current occupied
  · intro returned given
    rcases installed with ⟨current, -⟩ | ⟨-, mem⟩
    · simp [given, current] at returned
    · exact mem

theorem Context.Orderly.step {s t : Context A} {e : Event A} (orderly : s.Orderly)
    (undisturbed : Undisturbed s e) (taken : s.step e = some t) : t.Orderly := by
  cases e with
  | createAttestationSerializer =>
      rw [Context.step] at taken
      split_ifs at taken with claimed
      · obtain rfl := Option.some.inj taken
        exact orderly
      · obtain rfl := Option.some.inj taken
        exact orderly.create (by simpa using claimed) _ _
  | call i attestation =>
      rw [Context.step, Option.ite_none_right_eq_some] at taken
      obtain ⟨-, rfl⟩ := taken.imp_right Option.some.inj
      exact orderly.enqueue i attestation
  | start p =>
      rw [Context.step, Option.ite_none_right_eq_some] at taken
      obtain ⟨⟨bound, waiting, reached⟩, rfl⟩ := taken.imp_right Option.some.inj
      exact orderly.start bound waiting reached
  | sign p =>
      rw [Context.step, Option.ite_none_right_eq_some] at taken
      obtain ⟨⟨bound, flies⟩, rfl⟩ := taken.imp_right Option.some.inj
      exact orderly.sign bound flies
  | signOutside =>
      obtain rfl := Option.some.inj taken
      exact orderly.clear undisturbed s.owner
  | settle p succeeds =>
      rw [Context.step, Option.ite_none_right_eq_some] at taken
      obtain ⟨⟨bound, flies⟩, rfl⟩ := taken.imp_right Option.some.inj
      exact orderly.settle bound flies succeeds
  | releaseAttestationSerializer i =>
      rw [Context.step] at taken
      split_ifs at taken with other
      · obtain rfl := Option.some.inj taken
        exact orderly
      · obtain rfl := Option.some.inj taken
        refine orderly.clear (undisturbed ?_) none
        cases i with
        | none => exact Or.inr rfl
        | some i => exact Or.inl (by simpa using other)

/-- Each operation consumes its own attestation, and at most once. -/
theorem Operation.Attested.count_le {o : Operation A} (attested : o.Attested) (a : A) :
    o.requests.count (some a) ≤ if o.attestation = some a then 1 else 0 := by
  split_ifs with own
  · calc o.requests.count (some a) ≤ o.requests.countP Option.isSome :=
          List.countP_mono_left fun r _ same => by rw [beq_iff_eq.mp same]; rfl
      _ ≤ 1 := attested.once
  · rw [Nat.le_zero, List.count_eq_zero]
    intro mem
    rcases attested.carried _ mem with none | same
    · cases none
    · exact own same.symm

theorem Context.Orderly.result {s : Context A} (orderly : s.Orderly) : s.Attested where
  operations := orderly.attested
  once a := by
    rw [Context.consumptions, Context.installations, Finset.card_filter]
    exact Finset.sum_le_sum fun p mem => (orderly.attested p (Finset.mem_range.mp mem)).count_le a

/-- **Attestations are never misattached** in a run that does not disturb the slot under an
operation in flight. -/
theorem attestations_attached {events : List (Event A)} {s : Context A}
    (undisturbed : Machine.Always Context.step Undisturbed Context.new events)
    (taken : Machine.run Context.step Context.new events = some s) : s.Attested :=
  Context.Orderly.result (Machine.run_keeps_of (P := Context.Orderly)
    (fun _ _ _ orderly free step => orderly.step free step) .new undisturbed taken)

/-- Two clients over one context, one after the other. -/
theorem attestations_attached_reconnect : ∃ s : Context Nat,
    Machine.run Context.step Context.new [.createAttestationSerializer, .call 0 (some 1), .start 0,
      .sign 0, .settle 0 true, .releaseAttestationSerializer (some 0),
      .createAttestationSerializer, .call 1 (some 2), .start 1, .sign 1, .settle 1 true] = some s ∧
    s.Attested := by
  have ⟨s, taken⟩ : ∃ s : Context Nat, Machine.run Context.step Context.new
      [.createAttestationSerializer, .call 0 (some 1), .start 0, .sign 0, .settle 0 true,
        .releaseAttestationSerializer (some 0), .createAttestationSerializer, .call 1 (some 2),
        .start 1, .sign 1, .settle 1 true] = some s := ⟨_, rfl⟩
  exact ⟨s, taken, attestations_attached (by decide) taken⟩

/-- The client is closed and reconnects under an operation in flight, whose signer then takes
the attestation of the new client's operation. -/
theorem attestation_misattached : ∃ s : Context Nat,
    Machine.run Context.step Context.new [.createAttestationSerializer, .call 0 (some 1), .start 0,
      .releaseAttestationSerializer (some 0), .createAttestationSerializer, .call 1 (some 2),
      .start 1, .sign 0, .settle 0 true] = some s ∧
    (s.operation 0).attestation = some 1 ∧ (s.operation 0).phase = .settled true ∧
    (s.operation 0).requests = [some 2] ∧ ¬ s.Attested := by
  refine ⟨_, rfl, rfl, rfl, rfl, fun attested => ?_⟩
  have carried := (attested.operations 0 (by decide)).carried (some 2) (by decide)
  exact absurd carried (by decide)

end Knowledger.Signing
