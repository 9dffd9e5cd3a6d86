import Knowledger.Invariant

/-!
# The invariant is kept

Closing an agreement and opening one, then every command, `execute` and `bootstrap`.
-/

namespace Knowledger

open Js Txn

variable [Sha256] {L M : State} {config : DomainConfig}

/-! ## Closing an agreement -/

/-- The states differ only in agreements, pointers, proposals and the epoch. -/
structure SameReviews (L M : State) : Prop where
  config : M.config = L.config
  revision : ∀ digest, M.revision digest = L.revision digest
  policy : ∀ id version, M.policy id version = L.policy id version
  decision : ∀ id, M.decision id = L.decision id
  counter : ∀ id, M.counter id = L.counter id
  latest : ∀ p v r o a, M.latest p v r o a = L.latest p v r o a

theorem SameReviews.grows (same : SameReviews L M) : Grows L M where
  revision digest _ found := (same.revision digest).trans found
  policy id version _ found := (same.policy id version).trans found
  decision id _ found := (same.decision id).trans found

theorem SameReviews.endorsed (same : SameReviews L M) {a : AgreementRecord}
    (endorsed : Endorsed L config a) : Endorsed M config a :=
  endorsed.mono same.grows fun _ _ => same.latest _ _ _ _ _

section Close

variable {a : AgreementRecord} {status : AgreementStatus} {reason : Text 1000} {ctx : Context}
  {valid : (a.withStatus status reason ctx).Valid} {epoch : SafeInt 0}

theorem close_sameReviews :
    SameReviews L (L.putAll (closeEntries (a.withStatus status reason ctx) valid epoch)) := by
  constructor <;> intros <;> simp [closeEntries]

theorem close_agreement (id : Id) :
    (L.putAll (closeEntries (a.withStatus status reason ctx) valid epoch)).agreement id =
      if id = a.agreementId then some (a.withStatus status reason ctx) else L.agreement id := by
  simp [closeEntries, AgreementRecord.withStatus]

theorem close_active (slot : Slot) :
    (L.putAll (closeEntries (a.withStatus status reason ctx) valid epoch)).active slot =
      if slot = a.toSlot then none else L.active slot := by
  simp [closeEntries, AgreementRecord.withStatus]

theorem close_proposal (id : Id) :
    (L.putAll (closeEntries (a.withStatus status reason ctx) valid epoch)).proposal id =
      L.proposal id := by
  simp [closeEntries]

theorem close_epochRecord :
    (L.putAll (closeEntries (a.withStatus status reason ctx) valid epoch)).epochRecord =
      some epoch := by
  simp [closeEntries]

/-- A stored active agreement is the only one of its slot. -/
theorem Core.unique_active (core : Core L config) {i j : Id} {b c : AgreementRecord}
    (storedB : L.agreement i = some b) (activeB : b.status = .active)
    (storedC : L.agreement j = some c) (activeC : c.status = .active)
    (slot : b.toSlot = c.toSlot) : i = j := by
  have pointB := core.indexed i b storedB activeB
  have pointC := core.indexed j c storedC activeC
  rw [slot] at pointB
  exact Option.some.inj (pointB.symm.trans pointC)

variable (valid) in
theorem Core.close (core : Core L config) (stored : L.agreement a.agreementId = some a)
    (active : a.status = .active) (closes : status ≠ .active) :
    Core (L.putAll (closeEntries (a.withStatus status reason ctx) valid epoch)) config := by
  have same : SameReviews L (L.putAll (closeEntries (a.withStatus status reason ctx) valid epoch)) :=
    close_sameReviews
  have still : ∀ id b, L.agreement id = some b → ∃ b',
      (L.putAll (closeEntries (a.withStatus status reason ctx) valid epoch)).agreement id =
        some b' ∧ b'.agreementId = b.agreementId ∧ b'.target = b.target := by
    intro id b found
    rw [close_agreement]
    split_ifs with this
    · subst this
      obtain rfl := Option.some.inj (stored.symm.trans found)
      exact ⟨_, rfl, rfl, rfl⟩
    · exact ⟨b, found, rfl, rfl⟩
  constructor
  case config_eq => exact same.config.trans core.config_eq
  case epoch => exact ⟨epoch, close_epochRecord⟩
  case policies => exact fun id version p found =>
      core.policies id version p (same.policy id version ▸ found)
  case pointed =>
    intro slot id pointer
    rw [close_active] at pointer
    split_ifs at pointer with other
    obtain ⟨b, storedB, slotB, activeB⟩ := core.pointed slot id pointer
    refine ⟨b, ?_, slotB, activeB⟩
    rw [close_agreement, if_neg, storedB]
    rintro rfl
    obtain rfl := Option.some.inj (stored.symm.trans storedB)
    exact other slotB.symm
  case indexed =>
    intro id b storedB activeB
    rw [close_agreement] at storedB
    split_ifs at storedB with this
    · obtain rfl := Option.some.inj storedB
      exact absurd activeB closes
    · rw [close_active, if_neg]
      · exact core.indexed id b storedB activeB
      · exact fun slot => this (core.unique_active storedB activeB stored active slot)
  case proposals =>
    intro id p found
    obtain ⟨⟨policy, revision, backed⟩, counter, consumed⟩ :=
      core.proposals id p (close_proposal id ▸ found)
    refine ⟨⟨policy, revision, backed.mono same.grows⟩, (same.counter id).trans counter, ?_⟩
    unfold Consumed at consumed ⊢
    split
    case h_1 status => simpa only [status] using consumed
    case h_2 status =>
      simp only [status] at consumed
      obtain ⟨b, names, storedB, target⟩ := consumed
      obtain ⟨b', storedB', id, target'⟩ := still _ b storedB
      exact ⟨b', names.trans (congrArg some id.symm), id ▸ storedB', target'.trans target⟩
  case decisions =>
    intro id d found
    obtain ⟨⟨p, proposal, target⟩, named⟩ := core.decisions id d (same.decision id ▸ found)
    exact ⟨⟨p, (close_proposal _).trans proposal, target⟩, named⟩
  case latest =>
    intro p v r o b id pointer
    obtain ⟨d, found, rest⟩ := core.latest p v r o b id (same.latest p v r o b ▸ pointer)
    exact ⟨d, (same.decision id).trans found, rest⟩
  case agreements =>
    intro id b storedB
    have kept : ∀ b, Agreed L config b → Agreed
        (L.putAll (closeEntries (a.withStatus status reason ctx) valid epoch)) config b :=
      fun b agreed => agreed.mono same.grows fun p found status =>
        ⟨p, (close_proposal _).trans found, status, rfl⟩
    rw [close_agreement] at storedB
    split_ifs at storedB
    · obtain rfl := Option.some.inj storedB
      have agreed := kept a (core.agreements _ _ stored)
      exact ⟨agreed.backed, agreed.proposal⟩
    · exact kept b (core.agreements id b storedB)

variable (valid) in
theorem Live.close (closes : status ≠ .active)
    (others : ∀ id b, L.agreement id = some b → b.status = .active → id ≠ a.agreementId →
      Endorsed L config b) :
    Live (L.putAll (closeEntries (a.withStatus status reason ctx) valid epoch)) config := by
  intro id b stored active
  rw [close_agreement] at stored
  split_ifs at stored with this
  · obtain rfl := Option.some.inj stored
    exact absurd active closes
  · exact close_sameReviews.endorsed (others id b stored active this)

end Close

/-! ## Commands -/

section Commands

variable {ctx : Context} {input : Fields}

theorem StatusChange.core {desired : AgreementStatus} (core : Core L config)
    (c : StatusChange L ctx config input desired) (closes : desired ≠ .active) :
    Core (L.putAll c.entries) config :=
  core.close _ c.stored c.active closes

theorem StatusChange.live {desired : AgreementStatus} (live : Live L config)
    (c : StatusChange L ctx config input desired) (closes : desired ≠ .active) :
    Live (L.putAll c.entries) config :=
  Live.close _ closes fun id b stored active _ => live id b stored active

theorem Deciding.recorded_sameActive (c : Deciding L ctx config input) :
    L.SameActive c.recorded :=
  decisionEntries_sameActive

theorem Deciding.recorded_agreement (c : Deciding L ctx config input) (id : Id) :
    c.recorded.agreement id = L.agreement id := by
  simp [Deciding.recorded, decisionEntries]

/-- The state after the decision, with what it suspends. -/
theorem Deciding.putAll_entries (c : Deciding L ctx config input) :
    L.putAll c.entries = c.recorded.putAll
      (c.suspension.elim [] fun u => u.entries ctx (suspensionReason c.decision.decision)) :=
  State.putAll_append _ _ _

/-- Two agreements on one proposal are the same. -/
theorem Core.agreement_of_proposal (core : Core L config) {i j : Id} {a b : AgreementRecord}
    (storedA : L.agreement i = some a) (storedB : L.agreement j = some b)
    (same : a.proposalId = b.proposalId) : i = j := by
  obtain ⟨p, foundP, -, -, namesA⟩ := core.agreement_target storedA
  obtain ⟨q, foundQ, -, -, namesB⟩ := core.agreement_target storedB
  rw [same, foundQ] at foundP
  obtain rfl := Option.some.inj foundP
  obtain rfl := State.agreement_named storedA
  obtain rfl := State.agreement_named storedB
  exact Option.some.inj (namesA.symm.trans namesB)

theorem Deciding.core_entries (core : Core L config) (c : Deciding L ctx config input) :
    Core (L.putAll c.entries) config := by
  rw [c.putAll_entries]
  cases c.suspension with
  | none => exact c.core core
  | some u =>
      have stored : c.recorded.agreement u.agreement.agreementId = some u.agreement := by
        rw [c.recorded_agreement]
        exact u.active.2.1
      exact (c.core core).close (AgreementRecord.withStatus_valid u.valid) stored u.status (by simp)

/-- The suspension of the one agreement the decision no longer supports leaves only
endorsed ones. -/
theorem Deciding.live_entries (core : Core L config) (live : Live L config)
    (c : Deciding L ctx config input) : Live (L.putAll c.entries) config := by
  rw [c.putAll_entries]
  cases suspension : c.suspension with
  | none =>
      intro id a stored active
      replace stored : L.agreement id = some a := c.recorded_agreement id ▸ stored
      refine c.endorsed core stored (live id a stored active) ?_
      refine (c.spares suspension).imp_right fun unaffected onProposal => ?_
      obtain ⟨current, activeIs, spared⟩ := unaffected
      obtain ⟨p, found, target, -⟩ := core.agreement_target stored
      rw [onProposal, c.proposalStored] at found
      obtain rfl := Option.some.inj found
      have slot : a.toSlot = c.proposal.toSlot := congrArg Target.slot target.symm
      have pointer := core.indexed id a stored active
      rw [slot] at pointer
      cases current with
      | none => exact absurd (activeIs.symm.trans pointer) (by simp)
      | some b =>
          obtain ⟨pointerB, storedB, -⟩ := activeIs
          obtain rfl := Option.some.inj (pointerB.symm.trans pointer)
          obtain rfl := Option.some.inj (storedB.symm.trans stored)
          exact spared b rfl active onProposal
  | some u =>
      refine Live.close (AgreementRecord.withStatus_valid u.valid) (by simp) fun id b stored active other => ?_
      replace stored : L.agreement id = some b := c.recorded_agreement id ▸ stored
      refine c.endorsed core stored (live id b stored active) (Or.inr fun onProposal => ?_)
      exact other (core.agreement_of_proposal stored u.active.2.1 (onProposal.trans u.proposal.symm))

/-! ## Activating -/

theorem State.set_comm {j k : Key} (differ : j ≠ k) (r : j.Record) (q : k.Record) :
    (L.set j r).set k q = (L.set k q).set j r :=
  Function.update_comm differ _ _ _

theorem State.set_set {k : Key} (r q : k.Record) : (L.set k r).set k q = L.set k q :=
  Function.update_idem _ _ _

/-- The state with the epoch of the activation, once the superseded agreement is closed. -/
def closeCurrent (L : State) (ctx : Context) (epoch : SafeInt 0) :
    (current : Option AgreementRecord) → (∀ a, current = some a → a.Valid) → State
  | none, _ => L.set .eligibilityEpoch epoch
  | some a, valid => L.putAll (closeEntries (a.withStatus .superseded supersededReason ctx)
      (AgreementRecord.withStatus_valid (valid a rfl)) epoch)

theorem closeEntries_slot {a : AgreementRecord} (valid : a.Valid) (epoch : SafeInt 0) {slot : Slot}
    (same : a.toSlot = slot) : closeEntries a valid epoch =
      [⟨.agreement a.agreementId, ⟨a, valid, rfl⟩⟩, ⟨.activeSlot slot, none⟩,
        ⟨.eligibilityEpoch, epoch⟩] := by
  subst same
  rfl

/-- An activation closes the current agreement and then opens the new one. -/
theorem putAll_activation {current : Option AgreementRecord} {a : AgreementRecord}
    {p : AgreementProposalRecord} {epoch : SafeInt 0} (valid : a.Valid)
    (currentIs : L.ActiveIs p.toSlot current) :
    L.putAll (⟨.eligibilityEpoch, epoch⟩ :: supersededEntries ctx current currentIs.valid ++
        activatedEntries a valid p) =
      (closeCurrent L ctx epoch current currentIs.valid).putAll (activatedEntries a valid p) := by
  cases current with
  | none => rfl
  | some b =>
      have slot : (b.withStatus .superseded supersededReason ctx).toSlot = p.toSlot :=
        currentIs.2.2
      have closes := closeEntries_slot
        (AgreementRecord.withStatus_valid (currentIs.valid b rfl)) epoch slot
      simp only [closeCurrent, closes, supersededEntries, activatedEntries,
        List.cons_append, List.nil_append, State.putAll_cons, State.putAll_nil]
      have epochFirst : ∀ M : State, (M.set (.activeSlot p.toSlot) none).set .eligibilityEpoch epoch =
          (M.set .eligibilityEpoch epoch).set (.activeSlot p.toSlot) none :=
        fun M => State.set_comm (by simp) _ _
      have agreementFirst : ∀ (M : State) (id : Id) (r : Key.Record (.agreement id)),
          (M.set (.activeSlot p.toSlot) none).set (.agreement id) r =
            (M.set (.agreement id) r).set (.activeSlot p.toSlot) none :=
        fun M id r => State.set_comm (by simp) _ _
      have epochLast : ∀ (id : Id) (r : Key.Record (.agreement id)),
          (L.set (.agreement id) r).set .eligibilityEpoch epoch =
            (L.set .eligibilityEpoch epoch).set (.agreement id) r :=
        fun id r => State.set_comm (by simp) _ _
      rw [epochFirst, agreementFirst, State.set_set, epochLast]
      rfl

end Commands

/-! ## Opening an agreement -/

section Open

variable {a : AgreementRecord} {valid : a.Valid} {p : AgreementProposalRecord}

theorem open_sameReviews : SameReviews L (L.putAll (activatedEntries a valid p)) := by
  constructor <;> intros <;> simp [activatedEntries]

theorem open_agreement (id : Id) : (L.putAll (activatedEntries a valid p)).agreement id =
    if id = a.agreementId then some a else L.agreement id := by
  simp [activatedEntries]

theorem open_active (slot : Slot) : (L.putAll (activatedEntries a valid p)).active slot =
    if slot = p.toSlot then some a.agreementId else L.active slot := by
  simp [activatedEntries]

theorem open_proposal (id : Id) : (L.putAll (activatedEntries a valid p)).proposal id =
    if id = p.proposalId then some (p.activated a.agreementId) else L.proposal id := by
  simp [activatedEntries]

theorem open_epochRecord :
    (L.putAll (activatedEntries a valid p)).epochRecord = L.epochRecord := by
  simp [activatedEntries]

/-- What an agreement must be to be made of a stored proposal. -/
structure Openable (L : State) (config : DomainConfig) (a : AgreementRecord)
    (p : AgreementProposalRecord) : Prop where
  stored : L.proposal p.proposalId = some p
  open_ : p.status = .open
  vacant : L.active p.toSlot = none
  fresh : L.agreement a.agreementId = none
  target : a.target = p.target
  status : a.status = .active
  approved : ∃ policy, findPolicy config p.policyId p.policyVersion = some policy ∧
    List.Forall₂ (StillApproved L policy a.target) policy.requiredDomainRoles a.approvalDecisionIds

theorem StillApproved.approved {policy : AgreementPolicy} {t : Target} {role id : Id}
    (h : StillApproved L policy t role id) : Approved L policy t role id :=
  let ⟨representative, d, found, named, approves, _⟩ := h
  ⟨representative, d, found, named, approves⟩

variable (valid) in
theorem Core.open (core : Core L config) (h : Openable L config a p) :
    Core (L.putAll (activatedEntries a valid p)) config := by
  have same : SameReviews L (L.putAll (activatedEntries a valid p)) := open_sameReviews
  have slot : a.toSlot = p.toSlot := congrArg Target.slot h.target
  have proposalId : a.proposalId = p.proposalId := congrArg Target.proposalId h.target
  have kept : ∀ id b, L.agreement id = some b →
      (L.putAll (activatedEntries a valid p)).agreement id = some b := by
    intro id b found
    rw [open_agreement, if_neg, found]
    rintro rfl
    rw [h.fresh] at found
    cases found
  obtain ⟨⟨policy, revision, backed⟩, -, -⟩ := core.proposals _ _ h.stored
  constructor
  case config_eq => exact same.config.trans core.config_eq
  case epoch =>
    obtain ⟨n, epoch⟩ := core.epoch
    exact ⟨n, open_epochRecord.trans epoch⟩
  case policies => exact fun id version p found =>
      core.policies id version p (same.policy id version ▸ found)
  case pointed =>
    intro slot' id pointer
    rw [open_active] at pointer
    split_ifs at pointer with this
    · obtain rfl := Option.some.inj pointer
      exact ⟨a, by rw [open_agreement, if_pos rfl], slot.trans this.symm, h.status⟩
    · obtain ⟨b, stored, rest⟩ := core.pointed slot' id pointer
      exact ⟨b, kept id b stored, rest⟩
  case indexed =>
    intro id b stored active
    rw [open_agreement] at stored
    split_ifs at stored with this
    · obtain rfl := Option.some.inj stored
      rw [open_active, if_pos slot, this]
    · have pointer := core.indexed id b stored active
      rw [open_active, if_neg, pointer]
      intro other
      rw [other, h.vacant] at pointer
      cases pointer
  case proposals =>
    intro id q found
    have consumed : ∀ q, Consumed L q → Consumed (L.putAll (activatedEntries a valid p)) q := by
      intro q consumed
      unfold Consumed at consumed ⊢
      split
      case h_1 status => simpa only [status] using consumed
      case h_2 status =>
        simp only [status] at consumed
        obtain ⟨b, names, stored, target⟩ := consumed
        exact ⟨b, names, kept _ b stored, target⟩
    rw [open_proposal] at found
    split_ifs at found with this
    · obtain rfl := Option.some.inj found
      obtain ⟨⟨policy, revision, backed⟩, counter, -⟩ := core.proposals _ _ h.stored
      refine ⟨⟨policy, revision, backed.mono same.grows⟩, (same.counter _).trans (this ▸ counter),
        a, rfl, ?_, h.target⟩
      rw [open_agreement, if_pos rfl]
    · obtain ⟨⟨policy, revision, backed⟩, counter, still⟩ := core.proposals id q found
      exact ⟨⟨policy, revision, backed.mono same.grows⟩, (same.counter _).trans counter,
        consumed q still⟩
  case decisions =>
    intro id d found
    obtain ⟨⟨q, stored, target⟩, named⟩ := core.decisions id d (same.decision id ▸ found)
    refine ⟨?_, named⟩
    rw [open_proposal]
    split_ifs with this
    · rw [this, h.stored] at stored
      obtain rfl := Option.some.inj stored
      exact ⟨_, rfl, target⟩
    · exact ⟨q, stored, target⟩
  case latest =>
    intro q v r o b id pointer
    obtain ⟨d, found, rest⟩ := core.latest q v r o b id (same.latest q v r o b ▸ pointer)
    exact ⟨d, (same.decision id).trans found, rest⟩
  case agreements =>
    intro id b stored
    rw [open_agreement] at stored
    split_ifs at stored
    · obtain rfl := Option.some.inj stored
      obtain ⟨policy', found, approved⟩ := h.approved
      obtain rfl := Option.some.inj (backed.found.symm.trans found)
      refine ⟨⟨policy, revision, h.target ▸ backed.mono same.grows,
        approved.imp fun _ _ still => still.approved.mono same.grows⟩, ?_⟩
      exact ⟨p.activated a.agreementId, by rw [open_proposal, if_pos proposalId], rfl, rfl⟩
    · refine (core.agreements id b stored).mono same.grows fun q found status => ?_
      refine ⟨q, ?_, status, rfl⟩
      rw [open_proposal, if_neg, found]
      rintro onProposal
      rw [onProposal, h.stored] at found
      obtain rfl := Option.some.inj found
      rw [h.open_] at status
      cases status

variable (valid) in
theorem Live.open (live : Live L config) (h : Openable L config a p) :
    Live (L.putAll (activatedEntries a valid p)) config := by
  intro id b stored active
  rw [open_agreement] at stored
  split_ifs at stored
  · obtain rfl := Option.some.inj stored
    obtain ⟨policy, found, approved⟩ := h.approved
    refine open_sameReviews.endorsed fun policy' found' role required => ?_
    have version : a.policyVersion = p.policyVersion := congrArg Target.policyVersion h.target
    have id : a.policyId = p.policyId := congrArg Target.policyId h.target
    rw [id, version, found] at found'
    obtain rfl := Option.some.inj found'
    obtain ⟨i, bound, rfl⟩ := List.mem_iff_getElem.mp required
    exact ⟨_, approved.get bound (approved.length_eq ▸ bound)⟩
  · exact open_sameReviews.endorsed (live id b stored active)

end Open

/-! ## Activating -/

section Activating

variable {ctx : Context} {input : Fields} {slot : Slot} {epoch : SafeInt 0}
  {current : Option AgreementRecord} {valid : ∀ a, current = some a → a.Valid}

theorem closeCurrent_sameReviews : SameReviews L (closeCurrent L ctx epoch current valid) := by
  cases current with
  | none => constructor <;> intros <;> simp [closeCurrent]
  | some a => exact close_sameReviews

theorem closeCurrent_proposal (id : Id) :
    (closeCurrent L ctx epoch current valid).proposal id = L.proposal id := by
  cases current with
  | none => simp [closeCurrent]
  | some a => exact close_proposal id

theorem closeCurrent_epochRecord :
    (closeCurrent L ctx epoch current valid).epochRecord = some epoch := by
  cases current with
  | none => simp [closeCurrent]
  | some a => exact close_epochRecord

theorem closeCurrent_active (is : L.ActiveIs slot current) (other : Slot) :
    (closeCurrent L ctx epoch current valid).active other =
      if other = slot then none else L.active other := by
  cases current with
  | none =>
      have vacant : L.active slot = none := is
      split_ifs with this
      · simpa [closeCurrent, this] using vacant
      · simp [closeCurrent]
  | some a =>
      obtain ⟨-, -, rfl⟩ := is
      exact close_active other

theorem closeCurrent_fresh (is : L.ActiveIs slot current) {id : Id}
    (fresh : L.agreement id = none) :
    (closeCurrent L ctx epoch current valid).agreement id = none := by
  cases current with
  | none => simpa [closeCurrent] using fresh
  | some a =>
      rw [closeCurrent, close_agreement, if_neg, fresh]
      rintro rfl
      rw [is.2.1] at fresh
      cases fresh

theorem Core.active_status (core : Core L config) {a : AgreementRecord}
    (is : L.ActiveIs slot (some a)) : a.status = .active := by
  obtain ⟨b, stored, -, status⟩ := core.pointed slot _ is.1
  rw [is.2.1] at stored
  exact (Option.some.inj stored) ▸ status

theorem Core.closeCurrent (core : Core L config) (is : L.ActiveIs slot current) :
    Core (closeCurrent L ctx epoch current valid) config := by
  cases current with
  | none => exact core.same (SameCore.setEpoch epoch)
  | some a => exact core.close _ is.2.1 (core.active_status is) (by simp)

theorem Live.closeCurrent (live : Live L config) :
    Live (closeCurrent L ctx epoch current valid) config := by
  cases current with
  | none => exact live.same (SameCore.setEpoch epoch)
  | some a => exact Live.close _ (by simp) fun id b stored active _ => live id b stored active

theorem StillApproved.same (same : SameReviews L M) {policy : AgreementPolicy} {t : Target}
    {role id : Id} (h : StillApproved L policy t role id) : StillApproved M policy t role id :=
  let ⟨representative, d, found, named, approves, latest⟩ := h
  ⟨representative, d, found, named, approves.mono same.grows,
    (same.latest _ _ _ _ _).trans latest⟩

theorem Activating.target (core : Core L config) (c : Activating L ctx config input) :
    c.agreement.target = c.proposal.target := by
  obtain ⟨⟨policy, revision, backed⟩, -, -⟩ := core.proposals _ _ c.proposalStored
  obtain rfl := Option.some.inj (backed.stored.symm.trans c.revisionStored)
  obtain ⟨-, id, version⟩ := findPolicy_some c.found
  obtain ⟨-, digest⟩ := State.revision_named c.revisionStored
  have slot : c.revision.payload.toSlot = c.proposal.toSlot := backed.revisionSlot
  simp only [Activating.agreement, activatedAgreement, AgreementRecord.target,
    AgreementProposalRecord.target, slot, digest, id, version, c.membership, c.roleBinding]

/-- Once the superseded agreement is closed, the new one may be opened. -/
theorem Activating.openable (core : Core L config) (c : Activating L ctx config input) :
    Openable (Knowledger.closeCurrent L ctx c.epoch c.current c.currentIs.valid) config
      c.agreement c.proposal where
  stored := (closeCurrent_proposal _).trans c.proposalStored
  open_ := c.open_
  vacant := by rw [closeCurrent_active c.currentIs, if_pos rfl]
  fresh := closeCurrent_fresh c.currentIs
    (congrArg (Option.map fun a : Key.Record (.agreement c.agreementId) => a.1) c.fresh)
  target := c.target core
  status := rfl
  approved := by
    refine ⟨c.policy, c.found, ?_⟩
    rw [c.target core]
    exact c.approved.imp fun _ _ => StillApproved.same closeCurrent_sameReviews

theorem Activating.core (core : Core L config) (c : Activating L ctx config input) :
    Core (L.putAll c.entries) config := by
  rw [Activating.entries, putAll_activation c.agreement_valid c.currentIs]
  exact (core.closeCurrent c.currentIs).open c.agreement_valid (c.openable core)

theorem Activating.live (core : Core L config) (live : Live L config)
    (c : Activating L ctx config input) : Live (L.putAll c.entries) config := by
  rw [Activating.entries, putAll_activation c.agreement_valid c.currentIs]
  exact live.closeCurrent.open c.agreement_valid (c.openable core)

theorem Activating.grows (c : Activating L ctx config input) : Grows L (L.putAll c.entries) := by
  rw [Activating.entries, putAll_activation c.agreement_valid c.currentIs]
  have first : SameReviews L (Knowledger.closeCurrent L ctx c.epoch c.current
    c.currentIs.valid) := closeCurrent_sameReviews
  have second : SameReviews _ ((Knowledger.closeCurrent L ctx c.epoch c.current
    c.currentIs.valid).putAll (activatedEntries c.agreement c.agreement_valid c.proposal)) :=
      open_sameReviews
  exact ⟨fun digest r found => second.grows.revision _ _ (first.grows.revision _ _ found),
    fun id version p found => second.grows.policy _ _ _ (first.grows.policy _ _ _ found),
    fun id d found => second.grows.decision _ _ (first.grows.decision _ _ found)⟩

theorem Activating.epoch_eq (c : Activating L ctx config input) :
    (L.putAll c.entries).epoch = L.epoch + 1 := by
  rw [Activating.entries, putAll_activation c.agreement_valid c.currentIs, State.epoch,
    open_epochRecord, closeCurrent_epochRecord]
  exact c.next

end Activating

/-! ## Every command -/

/-- The command was one of those that change the status of an agreement. -/
def changesStatus (type : Text 80) (result : Value) : Bool :=
  type.1 == "activate" || type.1 == "withdraw" || type.1 == "suspend" ||
    type.1 == "decide" && ((isRecord result).bind fun fields =>
      fields.get "suspended_agreement_id").isSome

/-- The states name the same agreements. -/
structure Still (L M : State) : Prop where
  active : ∀ slot, M.active slot = L.active slot
  agreement : ∀ id, M.agreement id = L.agreement id

section Performs

variable {ctx : Context} {command : DomainCommand} {r : Value} {es : List Entry}

theorem Grows.trans {N : State} (first : Grows L M) (second : Grows M N) : Grows L N :=
  ⟨fun _ _ found => second.revision _ _ (first.revision _ _ found),
    fun _ _ _ found => second.policy _ _ _ (first.policy _ _ _ found),
    fun _ _ found => second.decision _ _ (first.decision _ _ found)⟩

theorem SameCore.still (same : SameCore L M) : Still L M := ⟨same.active, same.agreement⟩

theorem fence_sameCore {input : Fields} (c : Fencing L ctx config input) :
    SameCore L (L.putAll c.entries) :=
  SameCore.set (Or.inr rfl)

theorem Suspension.sameReviews {slot : Slot} {proposalId : Id} (u : Suspension L slot proposalId)
    {reason : Text 1000} : SameReviews M (M.putAll (u.entries ctx reason)) :=
  @close_sameReviews _ M u.agreement .suspended reason ctx
    (AgreementRecord.withStatus_valid u.valid) u.epoch

theorem Suspension.next_epoch {slot : Slot} {proposalId : Id} (u : Suspension L slot proposalId)
    {reason : Text 1000} : (M.putAll (u.entries ctx reason)).epoch = L.epoch + 1 := by
  have record : (M.putAll (u.entries ctx reason)).epochRecord = some u.epoch :=
    @close_epochRecord _ M u.agreement .suspended reason ctx
      (AgreementRecord.withStatus_valid u.valid) u.epoch
  rw [State.epoch, record]
  exact u.next

theorem StatusChange.next_epoch {input : Fields} {desired : AgreementStatus}
    (c : StatusChange L ctx config input desired) : (L.putAll c.entries).epoch = L.epoch + 1 := by
  have record : (L.putAll c.entries).epochRecord = some c.epoch := close_epochRecord
  rw [State.epoch, record]
  exact c.next

theorem Performs.core (core : Core L config) (performs : Performs L ctx config command r es) :
    Core (L.putAll es) config := by
  cases performs with
  | republish c type => exact core
  | publish c type => exact core.same c.sameCore
  | propose c type => exact c.core core
  | decide c type => exact c.core_entries core
  | activate c type => exact c.core core
  | withdraw c type => exact c.core core (by simp)
  | suspend c type => exact c.core core (by simp)
  | fence c type => exact core.same (fence_sameCore c)

theorem Performs.live (core : Core L config) (live : Live L config)
    (performs : Performs L ctx config command r es) : Live (L.putAll es) config := by
  cases performs with
  | republish c type => exact live
  | publish c type => exact live.same c.sameCore
  | propose c type => exact c.live core live
  | decide c type => exact c.live_entries core live
  | activate c type => exact c.live core live
  | withdraw c type => exact c.live live (by simp)
  | suspend c type => exact c.live live (by simp)
  | fence c type => exact live.same (fence_sameCore c)

theorem Performs.grows (core : Core L config) (performs : Performs L ctx config command r es) :
    Grows L (L.putAll es) := by
  cases performs with
  | republish c type => exact ⟨by simp, by simp, by simp⟩
  | publish c type => exact c.sameCore.toGrows
  | propose c type => exact c.grows core
  | decide c type =>
      rw [c.putAll_entries]
      cases c.suspension with
      | none => exact c.grows
      | some u => exact c.grows.trans u.sameReviews.grows
  | activate c type => exact c.grows
  | withdraw c type => exact close_sameReviews.grows
  | suspend c type => exact close_sameReviews.grows
  | fence c type => exact (fence_sameCore c).toGrows

theorem Deciding.recorded_epoch (c : Deciding L ctx config command.input) :
    c.recorded.epoch = L.epoch :=
  c.recorded_sameActive.epoch

/-- The result of a decision names what it suspended. -/
theorem Deciding.changes (c : Deciding L ctx config command.input)
    (type : command.type.1 = "decide") :
    changesStatus command.type c.result = c.suspension.isSome := by
  simp only [changesStatus, type]
  rw [Deciding.result]
  cases c.suspension <;> rfl

/-- The epoch counts the changes of status. -/
theorem Performs.epoch (performs : Performs L ctx config command r es) :
    (L.putAll es).epoch = L.epoch + if changesStatus command.type r then 1 else 0 := by
  cases performs with
  | republish c type => simp [changesStatus, type]
  | publish c type => simp [changesStatus, type, Publishing.entries]
  | propose c type => simp [changesStatus, type, Proposing.entries]
  | decide c type =>
      rw [c.putAll_entries, c.changes type]
      cases c.suspension with
      | none => exact c.recorded_epoch
      | some u => exact u.next_epoch
  | activate c type => simp [changesStatus, type, c.epoch_eq]
  | withdraw c type => simp [changesStatus, type, c.next_epoch]
  | suspend c type => simp [changesStatus, type, c.next_epoch]
  | fence c type => simp [changesStatus, type, Fencing.entries]

/-- Any other command leaves the agreements as they are. -/
theorem Performs.still (performs : Performs L ctx config command r es)
    (unchanged : changesStatus command.type r = false) : Still L (L.putAll es) := by
  cases performs with
  | republish c type => exact ⟨fun _ => rfl, fun _ => rfl⟩
  | publish c type => exact c.sameCore.still
  | propose c type => constructor <;> intros <;> simp [Proposing.entries]
  | decide c type =>
      rw [c.changes type, Option.isSome_eq_false_iff, Option.isNone_iff_eq_none] at unchanged
      rw [c.putAll_entries, unchanged]
      constructor <;> intros <;> simp [Deciding.recorded, decisionEntries]
  | activate c type => simp [changesStatus, type] at unchanged
  | withdraw c type => simp [changesStatus, type] at unchanged
  | suspend c type => simp [changesStatus, type] at unchanged
  | fence c type => exact (fence_sameCore c).still

end Performs

/-! ## Transactions -/

section Execution

variable {ctx : TxContext} {command : Value}

/-- The call records its result after the command. -/
theorem Execution.sameCore (c : Execution L ctx command) :
    SameCore (L.putAll c.performed) (L.putAll c.entries) := by
  rw [Execution.entries, State.putAll_append]
  exact SameCore.set (Or.inl rfl)

theorem Admitted.config_unique (c : Admitted L ctx command) (core : Core L config) :
    c.config = config :=
  Option.some.inj (c.config_eq.symm.trans core.config_eq)

theorem Execution.core (core : Core L config) (c : Execution L ctx command) :
    Core (L.putAll c.entries) config := by
  have same := c.config_unique core
  subst same
  exact (c.performs.core core).same c.sameCore

theorem Execution.live (core : Core L config) (live : Live L config)
    (c : Execution L ctx command) : Live (L.putAll c.entries) config := by
  have same := c.config_unique core
  subst same
  exact (c.performs.live core live).same c.sameCore

theorem Execution.grows (core : Core L config) (c : Execution L ctx command) :
    Grows L (L.putAll c.entries) := by
  have same := c.config_unique core
  subst same
  exact (c.performs.grows core).trans c.sameCore.toGrows

theorem Execution.epoch (c : Execution L ctx command) : (L.putAll c.entries).epoch =
    L.epoch + if changesStatus c.request.type c.result then 1 else 0 := by
  rw [Execution.entries, State.putAll_append, ← c.performs.epoch]
  exact State.epoch_other (by simp)

theorem Execution.still (c : Execution L ctx command)
    (unchanged : changesStatus c.request.type c.result = false) :
    Still L (L.putAll c.entries) := by
  have first := c.performs.still unchanged
  have second := c.sameCore.still
  exact ⟨fun slot => (second.active slot).trans (first.active slot),
    fun id => (second.agreement id).trans (first.agreement id)⟩

end Execution

section Bootstrap

theorem putAll_policies_other {policies : List AgreementPolicy}
    (storable : ∀ p ∈ policies, p.Storable) {k : Key} (other : ¬ k.kind = .policy) :
    L.putAll (policies.pmap policyEntry storable) k = L k := by
  refine State.putAll_of_notMem fun e mem => ?_
  obtain ⟨p, _, rfl⟩ := List.mem_pmap.mp mem
  rintro rfl
  exact other rfl

theorem putAll_policies {policies : List AgreementPolicy} (storable : ∀ p ∈ policies, p.Storable)
    {id : Id} {version : SafeInt 1} {p : AgreementPolicy}
    (stored : (L.putAll (policies.pmap policyEntry storable)).policy id version = some p) :
    L.policy id version = some p ∨
      p ∈ policies ∧ p.policyId = id ∧ p.policyVersion = version := by
  induction policies generalizing L with
  | nil => exact Or.inl stored
  | cons q policies ih =>
      rcases ih _ stored with found | ⟨mem, named⟩
      · rw [policyEntry, State.policy_set] at found
        split_ifs at found with same
        · obtain rfl := Option.some.inj found
          exact Or.inr ⟨List.mem_cons_self, same.1.symm, same.2.symm⟩
        · exact Or.inl found
      · exact Or.inr ⟨List.mem_cons_of_mem _ mem, named⟩

omit [Sha256] in
/-- A policy of the config is the one found under its name. -/
theorem findPolicy_mem {p : AgreementPolicy} (valid : config.Valid) (mem : p ∈ config.policies) :
    findPolicy config p.policyId p.policyVersion = some p := by
  cases found : findPolicy config p.policyId p.policyVersion with
  | none => simpa using List.find?_eq_none.mp found p mem
  | some q =>
      obtain ⟨listed, id, version⟩ := findPolicy_some found
      have same : policyKey q = policyKey p := by rw [policyKey, policyKey, id, version]
      exact congrArg some (List.inj_on_of_nodup_map valid.policies_nodup listed mem same)

variable {ctx : TxContext} {configInput : Value}

/-- The state of a channel before its bootstrap. -/
def State.empty : State := fun _ => none

theorem Bootstrapping.other (c : Bootstrapping State.empty ctx configInput) {k : Key}
    (policy : ¬ k.kind = .policy) (config : ¬ k.kind = .config)
    (epoch : ¬ k.kind = .eligibilityEpoch) : State.empty.putAll c.entries k = none := by
  rw [Bootstrapping.entries, State.putAll_cons, State.putAll_cons,
    putAll_policies_other c.storable policy, State.set_of_ne, State.set_of_ne]
  · rfl
  · rintro rfl
    exact config rfl
  · rintro rfl
    exact epoch rfl

theorem Bootstrapping.epochRecord_eq (c : Bootstrapping State.empty ctx configInput) :
    (State.empty.putAll c.entries).epochRecord = some ⟨0, SafeInt.zero_valid⟩ := by
  rw [State.epochRecord, Bootstrapping.entries, State.putAll_cons, State.putAll_cons,
    putAll_policies_other c.storable (by simp), State.set_self]

theorem Bootstrapping.config_eq' (c : Bootstrapping State.empty ctx configInput) :
    (State.empty.putAll c.entries).config = some c.config := by
  rw [State.config, Bootstrapping.entries, State.putAll_cons, State.putAll_cons,
    putAll_policies_other c.storable (by simp), State.set_of_ne _ _ (by simp), State.set_self]
  rfl

theorem Bootstrapping.core (c : Bootstrapping State.empty ctx configInput) :
    Core (State.empty.putAll c.entries) c.config where
  config_eq := c.config_eq'
  epoch := ⟨_, c.epochRecord_eq⟩
  policies id version p stored := by
    rw [Bootstrapping.entries, State.putAll_cons, State.putAll_cons] at stored
    rcases putAll_policies c.storable stored with found | ⟨mem, rfl, rfl⟩
    · rw [State.policy_other _ _ (by simp), State.policy_other _ _ (by simp)] at found
      cases found
    · exact findPolicy_mem c.valid mem
  pointed slot id active := by
    rw [State.active, State.pointer, c.other (by simp) (by simp) (by simp)] at active
    cases active
  indexed id a stored _ := by
    rw [State.agreement, c.other (by simp) (by simp) (by simp)] at stored
    cases stored
  proposals id p stored := by
    rw [State.proposal, c.other (by simp) (by simp) (by simp)] at stored
    cases stored
  decisions id d stored := by
    rw [State.decision, c.other (by simp) (by simp) (by simp)] at stored
    cases stored
  latest p v r o a id pointer := by
    rw [State.latest, c.other (by simp) (by simp) (by simp)] at pointer
    cases pointer
  agreements id a stored := by
    rw [State.agreement, c.other (by simp) (by simp) (by simp)] at stored
    cases stored

theorem Bootstrapping.live (c : Bootstrapping State.empty ctx configInput) :
    Live (State.empty.putAll c.entries) c.config := by
  intro id a stored _
  rw [State.agreement, c.other (by simp) (by simp) (by simp)] at stored
  cases stored

end Bootstrap

end Knowledger
