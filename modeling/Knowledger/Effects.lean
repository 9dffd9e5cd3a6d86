import Knowledger.Transition

/-!
# What an entry changes

The records of a typed state after one entry is written: the written record under its own
name, and every other record as it was.  With these as simp lemmas the state after a command
is read off its entries.
-/

namespace Knowledger

variable [Sha256] {L : State} {k : Key} {r : k.Record}

/-- The policy record stored under a name. -/
def State.policy (L : State) (id : Id) (version : SafeInt 1) : Option AgreementPolicy :=
  (L (.policy id version)).map fun p : Key.Record (.policy id version) => p.1

theorem State.policy_eq {id : Id} {version : SafeInt 1} {p : AgreementPolicy} :
    L.policy id version = some p ↔ ∃ h, L (.policy id version) = some ⟨p, h⟩ := map_val_eq

/-! ## Records of other kinds -/

section Kind

omit [Sha256]

@[simp] theorem Key.kind_config : Key.kind .config = .config := rfl
@[simp] theorem Key.kind_eligibilityEpoch : Key.kind .eligibilityEpoch = .eligibilityEpoch := rfl
@[simp] theorem Key.kind_revision (digest : Digest) : Key.kind (.revision digest) = .revision := rfl
@[simp] theorem Key.kind_revisionId (id : Id) : Key.kind (.revisionId id) = .revisionId := rfl
@[simp] theorem Key.kind_policy (id : Id) (version : SafeInt 1) : Key.kind (.policy id version) = .policy := rfl
@[simp] theorem Key.kind_proposal (id : Id) : Key.kind (.proposal id) = .proposal := rfl
@[simp] theorem Key.kind_decision (id : Id) : Key.kind (.decision id) = .decision := rfl
@[simp] theorem Key.kind_latestDecision (p : Id) (v : SafeInt 1) (r o a : Id) : Key.kind (.latestDecision p v r o a) = .latestDecision := rfl
@[simp] theorem Key.kind_reviewCounter (id : Id) : Key.kind (.reviewCounter id) = .reviewCounter := rfl
@[simp] theorem Key.kind_agreement (id : Id) : Key.kind (.agreement id) = .agreement := rfl
@[simp] theorem Key.kind_activeSlot (slot : Slot) : Key.kind (.activeSlot slot) = .activeSlot := rfl
@[simp] theorem Key.kind_idempotency (orgId commandId : Id) : Key.kind (.idempotency orgId commandId) = .idempotency := rfl
@[simp] theorem Key.kind_fence (nonce : Nonce) : Key.kind (.fence nonce) = .fence := rfl

end Kind

theorem State.set_other {j : Key} (h : ¬ k.kind = j.kind) : L.set k r j = L j :=
  State.set_of_ne L r fun same => h (same ▸ rfl)

@[simp] theorem State.config_other (h : ¬ k.kind = .config) :
    (L.set k r).config = L.config := by
  rw [State.config, State.set_other (j := .config) h]
  rfl

@[simp] theorem State.epochRecord_other (h : ¬ k.kind = .eligibilityEpoch) :
    (L.set k r).epochRecord = L.epochRecord := by
  rw [State.epochRecord, State.set_other (j := .eligibilityEpoch) h]
  rfl

@[simp] theorem State.revision_other (digest : Digest) (h : ¬ k.kind = .revision) :
    (L.set k r).revision digest = L.revision digest := by
  rw [State.revision, State.set_other (j := (.revision digest)) h]
  rfl

@[simp] theorem State.revisionPointer_other (id : Id) (h : ¬ k.kind = .revisionId) :
    (L.set k r).revisionPointer id = L.revisionPointer id := by
  rw [State.revisionPointer, State.set_other (j := (.revisionId id)) h]
  rfl

@[simp] theorem State.policy_other (id : Id) (version : SafeInt 1) (h : ¬ k.kind = .policy) :
    (L.set k r).policy id version = L.policy id version := by
  rw [State.policy, State.set_other (j := (.policy id version)) h]
  rfl

@[simp] theorem State.proposal_other (id : Id) (h : ¬ k.kind = .proposal) :
    (L.set k r).proposal id = L.proposal id := by
  rw [State.proposal, State.set_other (j := (.proposal id)) h]
  rfl

@[simp] theorem State.decision_other (id : Id) (h : ¬ k.kind = .decision) :
    (L.set k r).decision id = L.decision id := by
  rw [State.decision, State.set_other (j := (.decision id)) h]
  rfl

@[simp] theorem State.counter_other (id : Id) (h : ¬ k.kind = .reviewCounter) :
    (L.set k r).counter id = L.counter id := by
  rw [State.counter, State.set_other (j := (.reviewCounter id)) h]
  rfl

@[simp] theorem State.agreement_other (id : Id) (h : ¬ k.kind = .agreement) :
    (L.set k r).agreement id = L.agreement id := by
  rw [State.agreement, State.set_other (j := (.agreement id)) h]
  rfl

@[simp] theorem State.pointer_other (slot : Slot) (h : ¬ k.kind = .activeSlot) :
    (L.set k r).pointer slot = L.pointer slot := by
  rw [State.pointer, State.set_other (j := (.activeSlot slot)) h]
  rfl

@[simp] theorem State.idempotency_other (orgId commandId : Id) (h : ¬ k.kind = .idempotency) :
    (L.set k r).idempotency orgId commandId = L.idempotency orgId commandId := by
  rw [State.idempotency, State.set_other (j := (.idempotency orgId commandId)) h]
  rfl

/-! ## The written record -/

section Self

@[simp] theorem State.config_set (c : Key.Record .config) :
    (L.set .config c).config = some c.1 := by
  rw [State.config, State.set_self]
  rfl

@[simp] theorem State.epochRecord_set (n : SafeInt 0) :
    (L.set .eligibilityEpoch n).epochRecord = some n :=
  State.set_self _ _ _

@[simp] theorem State.revision_set (d digest : Digest) (r : Key.Record (.revision d)) :
    (L.set (.revision d) r).revision digest = if digest = d then some r.1 else L.revision digest := by
  by_cases same : digest = d
  · subst same
    rw [State.revision, State.set_self, if_pos rfl]
    rfl
  · rw [if_neg same, State.revision, State.set_of_ne _ _ (by simpa using same)]
    rfl

@[simp] theorem State.revisionPointer_set (i id : Id) (d : Digest) :
    (L.set (.revisionId i) d).revisionPointer id =
      if id = i then some d else L.revisionPointer id := by
  by_cases same : id = i
  · subst same
    rw [State.revisionPointer, State.set_self, if_pos rfl]
  · rw [if_neg same, State.revisionPointer, State.set_of_ne _ _ (by simpa using same)]
    rfl

@[simp] theorem State.policy_set (i id : Id) (v version : SafeInt 1) (p : Key.Record (.policy i v)) :
    (L.set (.policy i v) p).policy id version =
      if id = i ∧ version = v then some p.1 else L.policy id version := by
  by_cases same : id = i ∧ version = v
  · obtain ⟨rfl, rfl⟩ := same
    rw [State.policy, State.set_self, if_pos ⟨rfl, rfl⟩]
    rfl
  · rw [if_neg same, State.policy, State.set_of_ne _ _ (by simpa using same)]
    rfl

@[simp] theorem State.proposal_set (i id : Id) (p : Key.Record (.proposal i)) :
    (L.set (.proposal i) p).proposal id = if id = i then some p.1 else L.proposal id := by
  by_cases same : id = i
  · subst same
    rw [State.proposal, State.set_self, if_pos rfl]
    rfl
  · rw [if_neg same, State.proposal, State.set_of_ne _ _ (by simpa using same)]
    rfl

@[simp] theorem State.decision_set (i id : Id) (d : Key.Record (.decision i)) :
    (L.set (.decision i) d).decision id = if id = i then some d.1 else L.decision id := by
  by_cases same : id = i
  · subst same
    rw [State.decision, State.set_self, if_pos rfl]
    rfl
  · rw [if_neg same, State.decision, State.set_of_ne _ _ (by simpa using same)]
    rfl

@[simp] theorem State.counter_set (i id : Id) (n : SafeInt 0) :
    (L.set (.reviewCounter i) n).counter id = if id = i then some n else L.counter id := by
  by_cases same : id = i
  · subst same
    rw [State.counter, State.set_self, if_pos rfl]
  · rw [if_neg same, State.counter, State.set_of_ne _ _ (by simpa using same)]
    rfl

@[simp] theorem State.agreement_set (i id : Id) (a : Key.Record (.agreement i)) :
    (L.set (.agreement i) a).agreement id = if id = i then some a.1 else L.agreement id := by
  by_cases same : id = i
  · subst same
    rw [State.agreement, State.set_self, if_pos rfl]
    rfl
  · rw [if_neg same, State.agreement, State.set_of_ne _ _ (by simpa using same)]
    rfl

@[simp] theorem State.pointer_set (t slot : Slot) (o : Option Id) :
    (L.set (.activeSlot t) o).pointer slot = if slot = t then some o else L.pointer slot := by
  by_cases same : slot = t
  · subst same
    rw [State.pointer, State.set_self, if_pos rfl]
  · rw [if_neg same, State.pointer, State.set_of_ne _ _ (by simpa using same)]
    rfl

@[simp] theorem State.latest_set (p p' r r' o o' a a' id : Id) (v v' : SafeInt 1) :
    (L.set (.latestDecision p v r o a) id).latest p' v' r' o' a' =
      if p' = p ∧ v' = v ∧ r' = r ∧ o' = o ∧ a' = a then some id else L.latest p' v' r' o' a' := by
  by_cases same : p' = p ∧ v' = v ∧ r' = r ∧ o' = o ∧ a' = a
  · obtain ⟨rfl, rfl, rfl, rfl, rfl⟩ := same
    rw [State.latest, State.set_self, if_pos ⟨rfl, rfl, rfl, rfl, rfl⟩]
  · rw [if_neg same, State.latest, State.set_of_ne _ _ (by simpa using same)]
    rfl

@[simp] theorem State.latest_other {p r o a : Id} {v : SafeInt 1} {s : k.Record}
    (h : ¬ k.kind = .latestDecision) : (L.set k s).latest p v r o a = L.latest p v r o a := by
  rw [State.latest, State.set_other (j := .latestDecision p v r o a) h]
  rfl

end Self

@[simp] theorem State.active_set (t slot : Slot) (o : Option Id) :
    (L.set (.activeSlot t) o).active slot = if slot = t then o else L.active slot := by
  rw [State.active, State.pointer_set]
  by_cases same : slot = t <;> simp [same, State.active]

@[simp] theorem State.active_other (slot : Slot) (h : ¬ k.kind = .activeSlot) :
    (L.set k r).active slot = L.active slot := by
  rw [State.active, State.pointer_other slot h, State.active]

@[simp] theorem State.epoch_set (n : SafeInt 0) : (L.set .eligibilityEpoch n).epoch = n.1 := by
  rw [State.epoch, State.epochRecord_set]
  rfl

@[simp] theorem State.epoch_other (h : ¬ k.kind = .eligibilityEpoch) :
    (L.set k r).epoch = L.epoch := by
  rw [State.epoch, State.epochRecord_other h, State.epoch]

end Knowledger
