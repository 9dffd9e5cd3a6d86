import Knowledger.Steps

/-!
# Activation

The approvals an activation selects, and the accepted runs of `activate`.
-/

namespace Knowledger

open Js Txn

variable [Sha256] {L : State} {s : Store} {w w' : Writes String Value}

/-! ## Approvals -/

/-- What a proposal, a decision or an agreement is bound to. -/
structure Target where
  slot : Slot
  revisionDigest : Digest
  proposalId : Id
  policyId : Id
  policyVersion : SafeInt 1
  membershipEpoch : SafeInt 1
  roleBindingVersion : SafeInt 1

def AgreementProposalRecord.target (p : AgreementProposalRecord) : Target :=
  ⟨p.toSlot, p.revisionDigest, p.proposalId, p.policyId, p.policyVersion, p.membershipEpoch,
    p.roleBindingVersion⟩

def ApprovalDecision.target (d : ApprovalDecision) : Target :=
  ⟨d.toSlot, d.revisionDigest, d.proposalId, d.policyId, d.policyVersion, d.membershipEpoch,
    d.roleBindingVersion⟩

def AgreementRecord.target (a : AgreementRecord) : Target :=
  ⟨a.toSlot, a.revisionDigest, a.proposalId, a.policyId, a.policyVersion, a.membershipEpoch,
    a.roleBindingVersion⟩

omit [Sha256] in
theorem boundToProposal_iff {d : ApprovalDecision} {p : AgreementProposalRecord} :
    boundToProposal d p = true ↔ d.target = p.target := by
  simp only [boundToProposal, Bool.and_eq_true, beq_iff_eq, sameSlot_iff,
    ApprovalDecision.target, AgreementProposalRecord.target, Target.mk.injEq]
  tauto

omit [Sha256] in
theorem boundToAgreement_iff {d : ApprovalDecision} {a : AgreementRecord} :
    boundToAgreement d a = true ↔ d.target = a.target := by
  simp only [boundToAgreement, Bool.and_eq_true, beq_iff_eq, sameSlot_iff,
    ApprovalDecision.target, AgreementRecord.target, Target.mk.injEq]
  tauto

/-- The stored decision is the representative's approval of the target. -/
structure Approves (L : State) (target : Target) (representative : RoleRepresentative)
    (d : ApprovalDecision) : Prop where
  stored : L.decision d.decisionId = some d
  kind : d.decision = .approve
  org : d.actorOrgId = representative.actorOrgId
  actor : d.actorId = representative.actorId
  role : d.actorDomainRole = representative.domainRole
  bound : d.target = target

/-- The pointer to the latest decision of the representative of a role. -/
def State.latestOf (L : State) (target : Target) (role : Id)
    (representative : RoleRepresentative) : Option Id :=
  L.latest target.proposalId target.policyVersion role representative.actorOrgId
    representative.actorId

/-- The decision `id` is the approval of the target by the representative of the role. -/
def Approved (L : State) (policy : AgreementPolicy) (target : Target) (role id : Id) : Prop :=
  ∃ representative d, findRepresentative policy role = some representative ∧
    d.decisionId = id ∧ Approves L target representative d

/-- `Approved`, and the representative decided nothing since. -/
def StillApproved (L : State) (policy : AgreementPolicy) (target : Target) (role id : Id) : Prop :=
  ∃ representative d, findRepresentative policy role = some representative ∧
    d.decisionId = id ∧ Approves L target representative d ∧
    L.latestOf target role representative = some id

theorem latestApproval_ok (h : Represents L s) {p : AgreementProposalRecord} {role : Id}
    {representative : RoleRepresentative} {selected : List Id} {d : ApprovalDecision} :
    (latestApproval p role representative selected).eval s = .ok d ↔
      L.latestOf p.target role representative = some d.decisionId ∧
      Approves L p.target representative d ∧ d.decisionId ∉ selected := by
  have latest : ∀ {code message options v}, (requireRecord (keyFor.latestDecision p.proposalId.1
      p.policyVersion.1 role.1 representative.actorOrgId.1 representative.actorId.1) code message
      options).eval s = .ok v ↔ ∃ id, L.latestOf p.target role representative = some id ∧
        record [("decision_id", jsonString id.1)] = v := fun {code message options v} =>
    h.require (.latestDecision p.proposalId p.policyVersion role representative.actorOrgId
      representative.actorId)
  have keys : ∀ id : Id, assertKeys (recordFields [("decision_id", some (jsonString id.1))])
      ["decision_id"] [] "latest decision reference" = .ok () := fun id =>
    assertKeys_recordFields _ (by simp) (by simp)
  have name : ∀ id : Id, coerceString (((recordFields [("decision_id",
      some (jsonString id.1))]).get "decision_id").getD .null) = .ok (.wellFormed id.1) :=
    fun id => rfl
  have key : ∀ id : Id, keyOfString .decision (.wellFormed id.1) = .ok (keyFor.decision id.1) :=
    fun id => rfl
  simp only [latestApproval, eval_bind_ok, latest, eval_check, checked_ok,
    exists_exists_and_eq_and, assertRecord_record, Except.ok.injEq, exists_eq_left', keys, name,
    key, Query.eval_lift, ensure_ok, Unique.exists_iff, h.read_decision, Query.eval_pure, true_and,
    beq_iff_eq, Bool.and_eq_true, boundToProposal_iff, Bool.not_eq_true', List.contains_eq_mem,
    decide_eq_false_iff_not]
  constructor
  · rintro ⟨id, pointer, e, stored, kind, ⟨⟨org, actor⟩, role⟩, bound, unselected, rfl⟩
    obtain ⟨_, rfl⟩ := State.decision_named stored
    exact ⟨pointer, ⟨stored, kind, org, actor, role, bound⟩, unselected⟩
  · rintro ⟨pointer, ⟨stored, kind, org, actor, role, bound⟩, unselected⟩
    exact ⟨_, pointer, d, stored, kind, ⟨⟨org, actor⟩, role⟩, bound, unselected, rfl⟩

theorem latestApprovals_ok (h : Represents L s) {policy : AgreementPolicy}
    {p : AgreementProposalRecord} {roles selected ids : List Id} (nodup : selected.Nodup) :
    (latestApprovals policy p roles selected).eval s = .ok ids ↔ ∃ new, ids = selected ++ new ∧
      List.Forall₂ (StillApproved L policy p.target) roles new ∧ (selected ++ new).Nodup := by
  induction roles generalizing selected with
  | nil =>
      simp only [latestApprovals, Query.eval_pure, Except.ok.injEq, List.forall₂_nil_left_iff]
      constructor
      · rintro rfl
        exact ⟨[], by simp, rfl, by simpa using nodup⟩
      · rintro ⟨_, rfl, rfl, _⟩
        simp
  | cons role roles ih =>
      simp only [latestApprovals, List.forall₂_cons_left_iff]
      cases named : findRepresentative policy role with
      | none =>
          simp only [Query.eval_throw, reduceCtorEq, false_iff]
          rintro ⟨_, _, ⟨id, _, ⟨representative, _, found, _⟩, _⟩, _⟩
          rw [named] at found
          cases found
      | some representative =>
          simp only [eval_bind_ok, latestApproval_ok h]
          constructor
          · rintro ⟨d, ⟨pointer, approves, unselected⟩, run⟩
            have fresh : (selected ++ [d.decisionId]).Nodup := by
              refine List.nodup_append.mpr ⟨nodup, List.nodup_singleton _, ?_⟩
              rintro a mem b inside rfl
              exact unselected (List.mem_singleton.mp inside ▸ mem)
            obtain ⟨new, rfl, approved, nodup⟩ := (ih fresh).mp run
            refine ⟨d.decisionId :: new, by simp, ⟨_, _, ?_, approved, rfl⟩, by simpa using nodup⟩
            exact ⟨representative, d, named, rfl, approves, pointer⟩
          · rintro ⟨_, rfl, ⟨id, new, ⟨_, d, found, rfl, approves, pointer⟩, approved, rfl⟩, nodup⟩
            obtain rfl := Option.some.inj (named.symm.trans found)
            have split : selected ++ d.decisionId :: new =
                (selected ++ [d.decisionId]) ++ new := by simp
            rw [split] at nodup
            have fresh := (List.nodup_append.mp nodup).1
            refine ⟨d, ⟨pointer, approves, fun mem => ?_⟩, (ih fresh).mpr ⟨new, split, approved, nodup⟩⟩
            exact (List.nodup_append.mp fresh).2.2 _ mem _ (by simp) rfl

/-! ## Activating -/

theorem checkOpenProposal_ok (h : Represents L s) {config : DomainConfig}
    {p : AgreementProposalRecord} {r : DocumentRevision} {policy : AgreementPolicy} :
    (checkOpenProposal config p).eval s = .ok (r, policy) ↔
      (∀ m, L.counter p.proposalId = some m → m = p.reviewCounter) ∧ p.status = .open ∧
      L.revision p.revisionDigest = some r ∧
      findPolicy config p.policyId p.policyVersion = some policy ∧
      policy.toSlot = r.payload.toSlot ∧ p.membershipEpoch = config.membershipEpoch ∧
      p.roleBindingVersion = config.roleBindingVersion := by
  simp only [checkOpenProposal, eval_bind_ok, readReviewCounter_ok h, eval_check, checked_ok,
    ensure_ok, h.read_revision, policyFor_ok, assertPolicyMatchesRevision_ok, beq_iff_eq,
    Bool.and_eq_true, exists_const, Query.eval_pure, Except.ok.injEq, Prod.mk.injEq, and_assoc,
    exists_and_left, exists_and_right, exists_eq_left]
  constructor
  · rintro ⟨_, agrees, status, r, stored, policy, found, slot, membership, binding, rfl, rfl⟩
    exact ⟨agrees, status, stored, found, slot, membership, binding⟩
  · rintro ⟨agrees, status, stored, found, slot, membership, binding⟩
    exact ⟨⟨_, rfl⟩, agrees, status, r, stored, policy, found, slot, membership, binding, rfl,
      rfl⟩

omit [Sha256] in
theorem checkCurrentActive_ok {current : Option AgreementRecord} {expected : Option Id}
    {r : DocumentRevision} {u : Unit} :
    checkCurrentActive current expected r = .ok u ↔
      expected = current.map AgreementRecord.agreementId ∧
      ∀ a, current = some a → a.revisionDigest ≠ r.revisionDigest := by
  simp only [checkCurrentActive, bind_ok, ensure_ok, exists_const, beq_iff_eq, Bool.not_eq_true',
    Option.any_eq_false, beq_eq_false_iff_ne]
  exact and_congr_left fun _ => eq_comm

/-- Why an agreement is superseded. -/
def supersededReason : Text 1000 := ⟨"replaced_by_new_active_agreement", superseded_fits⟩

/-- The superseded agreement, if there was one. -/
def supersededEntries (ctx : Context) :
    (current : Option AgreementRecord) → (∀ a, current = some a → a.Valid) → List Entry
  | none, _ => []
  | some a, valid => [⟨.agreement a.agreementId, ⟨a.withStatus .superseded supersededReason ctx,
      AgreementRecord.withStatus_valid (valid a rfl), rfl⟩⟩]

/-- The proposal once the agreement is made of it. -/
def AgreementProposalRecord.activated (p : AgreementProposalRecord) (agreementId : Id) :
    AgreementProposalRecord :=
  { p with status := .activated, agreementId := some agreementId }

/-- The new agreement, the pointer of the slot, and the proposal. -/
def activatedEntries (a : AgreementRecord) (valid : a.Valid) (p : AgreementProposalRecord) :
    List Entry :=
  [⟨.agreement a.agreementId, ⟨a, AgreementRecord.stored_valid valid⟩⟩,
    ⟨.activeSlot p.toSlot, some a.agreementId⟩,
    ⟨.proposal p.proposalId, ⟨p.activated a.agreementId, rfl⟩⟩]

theorem recordActivation_ok {ctx : Context} {current : Option AgreementRecord}
    (currentValid : ∀ a, current = some a → a.Valid) {a : AgreementRecord} (valid : a.Valid)
    {p : AgreementProposalRecord} {u : Unit} :
    (recordActivation ctx current a p).simulate s w = .ok (u, w') ↔
      w' = putAll w (supersededEntries ctx current currentValid ++ activatedEntries a valid p) := by
  have canonical := canonicalize_isOk (AgreementRecord.canonicalizable_json valid)
  have rewritten : ∃ text, canonicalize (p.activated a.agreementId).toJson = .ok text :=
    canonicalize_isOk (AgreementProposalRecord.canonicalizable_json _)
  have proposal : ({ p with status := .activated, agreementId := some a.agreementId } :
    AgreementProposalRecord) = p.activated a.agreementId := rfl
  cases current with
  | none =>
      simp only [recordActivation, Program.simulate_bind_ok, putClone_ok, put_ok, canonical,
        proposal, rewritten, true_and, exists_const, exists_eq_left, simulate_pure_ok]
      rfl
  | some b =>
      have superseded : ∃ text, canonicalize
          (b.withStatus .superseded supersededReason ctx).toJson = .ok text :=
        canonicalize_isOk (AgreementRecord.canonicalizable_json
          (AgreementRecord.withStatus_valid (currentValid b rfl)))
      simp only [recordActivation, Program.simulate_bind_ok, putClone_ok, put_ok, canonical,
        proposal, rewritten, true_and, exists_const, and_assoc, exists_and_left, exists_eq_left]
      exact and_iff_right superseded

/-- An accepted `activate`. -/
structure Activating (L : State) (ctx : Context) (config : DomainConfig) (input : Fields) where
  identity : ConfigIdentity
  agreementId : Id
  proposal : AgreementProposalRecord
  revision : DocumentRevision
  policy : AgreementPolicy
  current : Option AgreementRecord
  approvals : List Id
  epoch : SafeInt 0
  human : requireHuman ctx config = .ok identity
  keys : assertKeys input ["proposal_id", "agreement_id", "expected_active_agreement_id"] []
    "activate input" = .ok ()
  proposalId_eq : assertId (input.get "proposal_id") "proposal_id" = .ok proposal.proposalId
  agreementId_eq : assertId (input.get "agreement_id") "agreement_id" = .ok agreementId
  expected_eq : assertExpected (input.get "expected_active_agreement_id") =
    .ok (current.map AgreementRecord.agreementId)
  proposalStored : L.proposal proposal.proposalId = some proposal
  counterAgrees : ∀ m, L.counter proposal.proposalId = some m → m = proposal.reviewCounter
  open_ : proposal.status = .open
  revisionStored : L.revision proposal.revisionDigest = some revision
  found : findPolicy config proposal.policyId proposal.policyVersion = some policy
  slot : policy.toSlot = revision.payload.toSlot
  membership : proposal.membershipEpoch = config.membershipEpoch
  roleBinding : proposal.roleBindingVersion = config.roleBindingVersion
  currentIs : L.ActiveIs proposal.toSlot current
  differs : ∀ a, current = some a → a.revisionDigest ≠ revision.revisionDigest
  fresh : L (.agreement agreementId) = none
  approved : List.Forall₂ (StillApproved L policy proposal.target) policy.requiredDomainRoles
    approvals
  nodup : approvals.Nodup
  eligible : ∀ s, Represents L s → (dependencyEligible revision 0 []).eval s = .ok ()
  next : epoch.1 = L.epoch + 1
  valid : policy.Valid

section Activating

variable {ctx : Context} {config : DomainConfig} {input : Fields}

def Activating.agreement (c : Activating L ctx config input) : AgreementRecord :=
  activatedAgreement ctx config c.agreementId c.proposal c.revision c.policy c.approvals

theorem Activating.agreement_valid (c : Activating L ctx config input) : c.agreement.Valid where
  nonempty := by
    have length := c.approved.length_eq
    have pos := c.valid.roles_pos
    change 1 ≤ c.approvals.length
    omega
  length_le := by
    have length := c.approved.length_eq
    have le := c.valid.roles_le
    change c.approvals.length ≤ 32
    omega
  nodup := c.nodup

theorem State.ActiveIs.valid {slot : Slot} {o : Option AgreementRecord}
    (active : L.ActiveIs slot o) : ∀ a, o = some a → a.Valid := by
  rintro a rfl
  exact State.agreement_valid active.2.1

def Activating.entries (c : Activating L ctx config input) : List Entry :=
  ⟨.eligibilityEpoch, c.epoch⟩ :: supersededEntries ctx c.current c.currentIs.valid ++
    activatedEntries c.agreement c.agreement_valid c.proposal

def Activating.result (c : Activating L ctx config input) : Value :=
  record [("status", jsonString "active"), ("agreement_id", jsonString c.agreementId.1),
    ("revision_digest", jsonString c.revision.revisionDigest.1),
    ("eligibility_epoch", jsonNat c.epoch.1),
    ("slot", jsonString (slotKey c.revision.payload.toSlot))]

theorem executeActivate_ok (h : Represents L (w.over s)) (valid : config.Valid) {r : Value} :
    (executeActivate ctx config input).simulate s w = .ok (r, w') ↔
      ∃ c : Activating L ctx config input, r = c.result ∧ w' = putAll w c.entries := by
  have read : ∀ id : Id, present (w.over s (keyFor.agreement id.1)) = none ↔
      L (.agreement id) = none := fun id => h.read_none (.agreement id)
  simp only [executeActivate, Program.simulate_bind_ok, simulate_query_ok, simulate_check_ok,
    and_assoc, exists_and_left, exists_eq_left, ensure_ok, Unique.exists_iff,
    PUnit.default_eq_unit, eval_getRecord, Except.ok.injEq, exists_eq_left', h.read_proposal,
    checkOpenProposal_ok h, Prod.exists, getActiveAgreement_ok h, checkCurrentActive_ok, read,
    Option.isNone_iff_eq_none, latestApprovals_ok h List.nodup_nil, incrementEpoch_ok h,
    simulate_pure_ok]
  constructor
  · rintro ⟨identity, human, keys, id, idRead, agreementId, agreementIdRead, expected, expectedRead,
      proposal, proposalStored, agrees, status, revision, revisionStored, policy, found, slot,
      membership, binding, current, currentIs, rfl, differs, fresh, approvals, ⟨_, rfl, approved,
      nodup⟩, eligible, epoch, next, _, recorded, rfl, rfl⟩
    obtain ⟨rfl, _⟩ := State.proposal_eq.mp proposalStored
    obtain ⟨listed, _⟩ := findPolicy_some found
    let c : Activating L ctx config input :=
      ⟨identity, agreementId, proposal, revision, policy, current, approvals, epoch, human, keys,
        idRead, agreementIdRead, expectedRead, proposalStored, agrees, status, revisionStored,
        found, slot, membership, binding, currentIs, differs, fresh, approved, nodup,
        fun t represents => h.unique represents ▸ eligible, next,
        (valid.policies policy listed).valid⟩
    exact ⟨c, rfl, (recordActivation_ok c.currentIs.valid c.agreement_valid).mp recorded⟩
  · rintro ⟨c, rfl, rfl⟩
    refine ⟨_, c.human, c.keys, _, c.proposalId_eq, _, c.agreementId_eq, _, c.expected_eq, _,
      c.proposalStored, c.counterAgrees, c.open_, _, c.revisionStored, _, c.found, c.slot,
      c.membership, c.roleBinding, _, c.currentIs, rfl, c.differs, c.fresh, c.approvals,
      ⟨_, (List.nil_append _).symm, c.approved, c.nodup⟩, c.eligible _ h, _, c.next, ?_⟩
    exact ⟨_, (recordActivation_ok c.currentIs.valid c.agreement_valid).mpr rfl, rfl, rfl⟩

end Activating

end Knowledger
