import Knowledger.Effects

/-!
# The invariant of a ledger

What holds of the records of every reachable state (`Core`), and what more holds of the
active agreements (`Live`): each required representative's latest decision approves.
A decision breaks `Live` for one agreement until the same command suspends it.
-/

namespace Knowledger

open Js Txn

variable [Sha256] {L M : State} {config : DomainConfig}

/-! ## Statements -/

/-- A target in force: of a policy of the config and of a stored revision, in its slot. -/
structure Backed (L : State) (config : DomainConfig) (t : Target) (policy : AgreementPolicy)
    (revision : DocumentRevision) : Prop where
  found : findPolicy config t.policyId t.policyVersion = some policy
  policySlot : policy.toSlot = t.slot
  policyStored : L.policy t.policyId t.policyVersion = some policy
  stored : L.revision t.revisionDigest = some revision
  revisionSlot : revision.payload.toSlot = t.slot
  membership : t.membershipEpoch = config.membershipEpoch
  roleBinding : t.roleBindingVersion = config.roleBindingVersion

/-- The agreement a proposal was made into. -/
def Consumed (L : State) (p : AgreementProposalRecord) : Prop :=
  match p.status with
  | .open => p.agreementId = none
  | .activated => ∃ a, p.agreementId = some a.agreementId ∧
      L.agreement a.agreementId = some a ∧ a.target = p.target

/-- A decision of the named representative on a stored proposal. -/
structure Decided (L : State) (config : DomainConfig) (d : ApprovalDecision) : Prop where
  proposal : ∃ p, L.proposal d.proposalId = some p ∧ p.target = d.target
  named : ∃ policy representative, findPolicy config d.policyId d.policyVersion = some policy ∧
    findRepresentative policy d.actorDomainRole = some representative ∧
    representative.actorOrgId = d.actorOrgId ∧ representative.actorId = d.actorId

/-- An agreement made of a consumed proposal, with one approval for each required role. -/
structure Agreed (L : State) (config : DomainConfig) (a : AgreementRecord) : Prop where
  backed : ∃ policy revision, Backed L config a.target policy revision ∧
    List.Forall₂ (Approved L policy a.target) policy.requiredDomainRoles a.approvalDecisionIds
  proposal : ∃ p, L.proposal a.proposalId = some p ∧ p.status = .activated ∧
    p.agreementId = some a.agreementId

/-- The invariant of the records. -/
structure Core (L : State) (config : DomainConfig) : Prop where
  config_eq : L.config = some config
  epoch : ∃ n, L.epochRecord = some n
  policies : ∀ id version p, L.policy id version = some p → findPolicy config id version = some p
  pointed : ∀ slot id, L.active slot = some id →
    ∃ a, L.agreement id = some a ∧ a.toSlot = slot ∧ a.status = .active
  indexed : ∀ id a, L.agreement id = some a → a.status = .active → L.active a.toSlot = some id
  proposals : ∀ id p, L.proposal id = some p →
    (∃ policy revision, Backed L config p.target policy revision) ∧
      L.counter id = some p.reviewCounter ∧ Consumed L p
  decisions : ∀ id d, L.decision id = some d → Decided L config d
  latest : ∀ p v r o a id, L.latest p v r o a = some id → ∃ d, L.decision id = some d ∧
    d.proposalId = p ∧ d.policyVersion = v ∧ d.actorDomainRole = r ∧ d.actorOrgId = o ∧
      d.actorId = a
  agreements : ∀ id a, L.agreement id = some a → Agreed L config a

/-- Every required representative still approves the agreement. -/
def Endorsed (L : State) (config : DomainConfig) (a : AgreementRecord) : Prop :=
  ∀ policy, findPolicy config a.policyId a.policyVersion = some policy →
    ∀ role ∈ policy.requiredDomainRoles, ∃ id, StillApproved L policy a.target role id

/-- Every active agreement is still approved. -/
def Live (L : State) (config : DomainConfig) : Prop :=
  ∀ id a, L.agreement id = some a → a.status = .active → Endorsed L config a

/-! ## Growth -/

/-- What is written once stays. -/
structure Grows (L M : State) : Prop where
  revision : ∀ digest r, L.revision digest = some r → M.revision digest = some r
  policy : ∀ id version p, L.policy id version = some p → M.policy id version = some p
  decision : ∀ id d, L.decision id = some d → M.decision id = some d

theorem Backed.mono {t : Target} {policy : AgreementPolicy} {revision : DocumentRevision}
    (grows : Grows L M) (backed : Backed L config t policy revision) :
    Backed M config t policy revision :=
  { backed with
    policyStored := grows.policy _ _ _ backed.policyStored
    stored := grows.revision _ _ backed.stored }

theorem Approves.mono {t : Target} {representative : RoleRepresentative} {d : ApprovalDecision}
    (grows : Grows L M) (approves : Approves L t representative d) :
    Approves M t representative d :=
  { approves with stored := grows.decision _ _ approves.stored }

theorem Approved.mono {t : Target} {policy : AgreementPolicy} {role id : Id} (grows : Grows L M)
    (approved : Approved L policy t role id) : Approved M policy t role id := by
  obtain ⟨representative, d, found, named, approves⟩ := approved
  exact ⟨representative, d, found, named, approves.mono grows⟩

theorem Agreed.mono {a : AgreementRecord} (grows : Grows L M)
    (proposal : ∀ p, L.proposal a.proposalId = some p → p.status = .activated →
      ∃ q, M.proposal a.proposalId = some q ∧ q.status = .activated ∧
        q.agreementId = p.agreementId)
    (agreed : Agreed L config a) : Agreed M config a where
  backed := by
    obtain ⟨policy, revision, backed, approvals⟩ := agreed.backed
    exact ⟨policy, revision, backed.mono grows, approvals.imp fun _ _ => Approved.mono grows⟩
  proposal := by
    obtain ⟨p, stored, status, names⟩ := agreed.proposal
    obtain ⟨q, stored, status, same⟩ := proposal p stored status
    exact ⟨q, stored, status, same.trans names⟩

/-- The states differ only in revisions, the epoch, fences and idempotency records. -/
structure SameCore (L M : State) : Prop extends Grows L M where
  config : M.config = L.config
  epoch : (∃ n, L.epochRecord = some n) → ∃ n, M.epochRecord = some n
  policies : ∀ id version, M.policy id version = L.policy id version
  active : ∀ slot, M.active slot = L.active slot
  agreement : ∀ id, M.agreement id = L.agreement id
  proposal : ∀ id, M.proposal id = L.proposal id
  counter : ∀ id, M.counter id = L.counter id
  decisions : ∀ id, M.decision id = L.decision id
  latest : ∀ p v r o a, M.latest p v r o a = L.latest p v r o a

theorem Core.same (core : Core L config) (same : SameCore L M) : Core M config where
  config_eq := same.config.trans core.config_eq
  epoch := same.epoch core.epoch
  policies id version p stored := core.policies id version p (same.policies id version ▸ stored)
  pointed slot id active := by
    obtain ⟨a, stored, rest⟩ := core.pointed slot id (same.active slot ▸ active)
    exact ⟨a, (same.agreement id).trans stored, rest⟩
  indexed id a stored status :=
    (same.active _).trans (core.indexed id a (same.agreement id ▸ stored) status)
  proposals id p stored := by
    obtain ⟨⟨policy, revision, backed⟩, counter, consumed⟩ :=
      core.proposals id p (same.proposal id ▸ stored)
    refine ⟨⟨policy, revision, backed.mono same.toGrows⟩, (same.counter id).trans counter, ?_⟩
    unfold Consumed at consumed ⊢
    simpa only [same.agreement] using consumed
  decisions id d stored := by
    obtain ⟨⟨p, found, target⟩, named⟩ := core.decisions id d (same.decisions id ▸ stored)
    exact ⟨⟨p, (same.proposal _).trans found, target⟩, named⟩
  latest p v r o a id pointer := by
    obtain ⟨d, stored, rest⟩ := core.latest p v r o a id (same.latest p v r o a ▸ pointer)
    exact ⟨d, (same.decisions id).trans stored, rest⟩
  agreements id a stored :=
    (core.agreements id a (same.agreement id ▸ stored)).mono same.toGrows
      fun p found status => ⟨p, (same.proposal _).trans found, status, rfl⟩

theorem Endorsed.mono {a : AgreementRecord} (grows : Grows L M)
    (latest : ∀ role representative, M.latestOf a.target role representative =
      L.latestOf a.target role representative) (endorsed : Endorsed L config a) :
    Endorsed M config a := by
  intro policy found role required
  obtain ⟨id, representative, d, named, same, approves, pointer⟩ :=
    endorsed policy found role required
  exact ⟨id, representative, d, named, same, approves.mono grows, (latest _ _).trans pointer⟩

theorem Live.same (live : Live L config) (same : SameCore L M) : Live M config :=
  fun id a stored status => (live id a (same.agreement id ▸ stored) status).mono same.toGrows
    fun _ _ => same.latest _ _ _ _ _

/-! ## Commands that only add records -/

section Commands

variable {ctx : Context} {input : Fields}

/-- A record of a kind that no invariant reads. -/
theorem SameCore.set {k : Key} {r : k.Record} (kind : k.kind = .idempotency ∨ k.kind = .fence) :
    SameCore L (L.set k r) := by
  have other : ∀ j : KeyPrefix, j ≠ .idempotency → j ≠ .fence → ¬ k.kind = j := by
    rintro j notIdempotency notFence rfl
    exact kind.elim notIdempotency notFence
  constructor
  case toGrows => constructor <;> intros <;> simp_all
  case epoch => exact fun stored => by simpa [other] using stored
  all_goals intros; simp [other]

theorem SameCore.setEpoch (epoch : SafeInt 0) : SameCore L (L.set .eligibilityEpoch epoch) := by
  constructor
  case toGrows => constructor <;> intros <;> simp_all
  case epoch => exact fun _ => ⟨epoch, State.epochRecord_set epoch⟩
  all_goals intros; simp

theorem Publishing.sameCore (c : Publishing L ctx config input) :
    SameCore L (L.putAll c.entries) := by
  have fresh : ∀ r, L.revision c.publication.revision.revisionDigest ≠ some r := by
    intro r found
    obtain ⟨_, stored⟩ := State.revision_eq.mp found
    rw [c.fresh] at stored
    cases stored
  constructor
  case toGrows =>
    refine ⟨fun digest r found => ?_, ?_, ?_⟩
    · have other : digest ≠ c.publication.revision.revisionDigest := by
        rintro rfl
        exact fresh r found
      simp [Publishing.entries, other, found]
    all_goals intros; simp_all [Publishing.entries]
  case epoch => exact fun stored => by simpa [Publishing.entries] using stored
  all_goals intros; simp [Publishing.entries]

/-! ## Proposing -/

theorem Proposing.missing (c : Proposing L ctx config input) : L.proposal c.proposalId = none :=
  congrArg (Option.map fun p : Key.Record (.proposal c.proposalId) => p.1) c.fresh

theorem Proposing.next_proposal (c : Proposing L ctx config input) (id : Id) :
    (L.putAll c.entries).proposal id =
      if id = c.proposalId then some c.proposal else L.proposal id := by
  simp [Proposing.entries]

theorem Proposing.grows (core : Core L config) (c : Proposing L ctx config input) :
    Grows L (L.putAll c.entries) where
  revision digest r found := by simpa [Proposing.entries] using found
  decision id d found := by simpa [Proposing.entries] using found
  policy id version p found := by
    have listed := core.policies id version p found
    simp only [Proposing.entries, State.putAll_cons, State.putAll_nil, State.policy_set]
    split_ifs with same
    · obtain ⟨rfl, rfl⟩ := same
      rw [← listed, c.found]
    · simpa using found

theorem Proposing.core (core : Core L config) (c : Proposing L ctx config input) :
    Core (L.putAll c.entries) config := by
  have grows := c.grows core
  have old : ∀ id p, L.proposal id = some p → (L.putAll c.entries).proposal id = some p := by
    intro id p found
    rw [c.next_proposal, if_neg, found]
    rintro rfl
    rw [c.missing] at found
    cases found
  constructor
  case config_eq => simpa [Proposing.entries] using core.config_eq
  case epoch => simpa [Proposing.entries] using core.epoch
  case policies =>
    intro id version p stored
    simp only [Proposing.entries, State.putAll_cons, State.putAll_nil, State.policy_set] at stored
    split_ifs at stored with same
    · obtain ⟨rfl, rfl⟩ := same
      rw [← Option.some.inj stored]
      exact c.found
    · exact core.policies id version p (by simpa using stored)
  case pointed => simpa [Proposing.entries] using core.pointed
  case indexed => simpa [Proposing.entries] using core.indexed
  case proposals =>
    intro id p stored
    rw [c.next_proposal] at stored
    split_ifs at stored with same
    · obtain rfl := Option.some.inj stored
      refine ⟨⟨c.policy, c.revision, c.found, c.slot, ?_, ?_, rfl, rfl, rfl⟩, ?_, rfl⟩
      · simp [Proposing.entries, Proposing.proposal, AgreementProposalRecord.target]
      · simpa [Proposing.entries, Proposing.proposal, AgreementProposalRecord.target]
          using c.stored
      · simp [Proposing.entries, Proposing.proposal, same]
    · obtain ⟨⟨policy, revision, backed⟩, counter, consumed⟩ := core.proposals id p stored
      refine ⟨⟨policy, revision, backed.mono grows⟩, ?_, ?_⟩
      · simpa [Proposing.entries, same] using counter
      · simpa [Consumed, Proposing.entries] using consumed
  case decisions =>
    intro id d stored
    obtain ⟨⟨p, found, target⟩, named⟩ :=
      core.decisions id d (by simpa [Proposing.entries] using stored)
    exact ⟨⟨p, old _ p found, target⟩, named⟩
  case latest => simpa [Proposing.entries] using core.latest
  case agreements =>
    intro id a stored
    exact (core.agreements id a (by simpa [Proposing.entries] using stored)).mono grows
      fun p found status => ⟨p, old _ p found, status, rfl⟩

theorem Proposing.live (core : Core L config) (live : Live L config)
    (c : Proposing L ctx config input) : Live (L.putAll c.entries) config := by
  intro id a stored status
  exact (live id a (by simpa [Proposing.entries] using stored) status).mono (c.grows core)
    (by simp [Proposing.entries, State.latestOf])

/-! ## Deciding -/

theorem State.proposal_named {id : Id} {p : AgreementProposalRecord}
    (found : L.proposal id = some p) : p.proposalId = id :=
  (State.proposal_eq.mp found).elim fun h _ => h

theorem State.agreement_named {id : Id} {a : AgreementRecord} (found : L.agreement id = some a) :
    a.agreementId = id :=
  (State.agreement_eq.mp found).elim fun h _ => h.2

/-- The state once the decision is recorded, before it suspends anything. -/
def Deciding.recorded (c : Deciding L ctx config input) : State :=
  L.putAll (decisionEntries c.decision c.valid c.counted)

theorem Deciding.missing (c : Deciding L ctx config input) :
    L.decision c.decision.decisionId = none :=
  congrArg (Option.map fun d : Key.Record (.decision c.decision.decisionId) => d.1) c.fresh

theorem Deciding.proposalId (c : Deciding L ctx config input) :
    c.proposal.proposalId = c.decision.proposalId :=
  State.proposal_named c.proposalStored

theorem Deciding.bound (c : Deciding L ctx config input) : c.proposal.target = c.decision.target := by
  simp only [AgreementProposalRecord.target, ApprovalDecision.target, Target.mk.injEq]
  exact ⟨c.target.slot, c.target.digest, c.proposalId, c.target.policyId, c.target.policyVersion,
    c.target.membershipEpoch, c.target.roleBindingVersion⟩

theorem Deciding.recorded_proposal (c : Deciding L ctx config input) (id : Id) :
    c.recorded.proposal id =
      if id = c.decision.proposalId then some c.counted else L.proposal id := by
  simp [Deciding.recorded, decisionEntries, Deciding.counted, c.proposalId]

theorem Deciding.recorded_decision (c : Deciding L ctx config input) (id : Id) :
    c.recorded.decision id =
      if id = c.decision.decisionId then some c.decision else L.decision id := by
  simp [Deciding.recorded, decisionEntries]

/-- Every stored proposal is stored after the decision, with its target and its agreement. -/
theorem Deciding.keeps (c : Deciding L ctx config input) {id : Id} {p : AgreementProposalRecord}
    (found : L.proposal id = some p) : ∃ q, c.recorded.proposal id = some q ∧
      q.target = p.target ∧ q.status = p.status ∧ q.agreementId = p.agreementId := by
  rw [c.recorded_proposal]
  split_ifs with same
  · subst same
    obtain rfl := Option.some.inj (c.proposalStored.symm.trans found)
    exact ⟨c.counted, rfl, rfl, rfl, rfl⟩
  · exact ⟨p, found, rfl, rfl, rfl⟩

theorem Deciding.grows (c : Deciding L ctx config input) : Grows L c.recorded where
  revision digest r found := by simpa [Deciding.recorded, decisionEntries] using found
  policy id version p found := by simpa [Deciding.recorded, decisionEntries] using found
  decision id d found := by
    rw [c.recorded_decision, if_neg, found]
    rintro rfl
    rw [c.missing] at found
    cases found

theorem Deciding.core (core : Core L config) (c : Deciding L ctx config input) :
    Core c.recorded config := by
  have grows := c.grows
  constructor
  case config_eq => simpa [Deciding.recorded, decisionEntries] using core.config_eq
  case epoch => simpa [Deciding.recorded, decisionEntries] using core.epoch
  case policies => simpa [Deciding.recorded, decisionEntries] using core.policies
  case pointed => simpa [Deciding.recorded, decisionEntries] using core.pointed
  case indexed => simpa [Deciding.recorded, decisionEntries] using core.indexed
  case proposals =>
    intro id p stored
    rw [c.recorded_proposal] at stored
    split_ifs at stored with same
    · obtain rfl := Option.some.inj stored
      obtain ⟨⟨policy, revision, backed⟩, _, consumed⟩ :=
        core.proposals _ _ c.proposalStored
      refine ⟨⟨policy, revision, backed.mono grows⟩, ?_, ?_⟩
      · simp [Deciding.recorded, decisionEntries, Deciding.counted, c.proposalId, same]
      · change Consumed c.recorded c.proposal
        simpa [Consumed, Deciding.recorded, decisionEntries] using consumed
    · obtain ⟨⟨policy, revision, backed⟩, counter, consumed⟩ := core.proposals id p stored
      refine ⟨⟨policy, revision, backed.mono grows⟩, ?_, ?_⟩
      · simpa [Deciding.recorded, decisionEntries, Deciding.counted, c.proposalId, same]
          using counter
      · simpa [Consumed, Deciding.recorded, decisionEntries] using consumed
  case decisions =>
    intro id d stored
    rw [c.recorded_decision] at stored
    split_ifs at stored with same
    · obtain rfl := Option.some.inj stored
      obtain ⟨representative, named, org, actor⟩ := c.actor.named
      obtain ⟨q, found, target, _⟩ := c.keeps c.proposalStored
      exact ⟨⟨q, found, target.trans c.bound⟩, c.policy, representative, c.found, named, org,
        actor⟩
    · obtain ⟨⟨p, found, target⟩, named⟩ := core.decisions id d stored
      obtain ⟨q, found, same, _⟩ := c.keeps found
      exact ⟨⟨q, found, same.trans target⟩, named⟩
  case latest =>
    intro p v r o a id pointer
    simp only [Deciding.recorded, decisionEntries, State.putAll_cons, State.putAll_nil,
      State.latest_other, Key.kind_reviewCounter, Key.kind_proposal, reduceCtorEq,
      not_false_eq_true, State.latest_set] at pointer
    split_ifs at pointer with same
    · obtain ⟨rfl, rfl, rfl, rfl, rfl⟩ := same
      obtain rfl := Option.some.inj pointer
      exact ⟨c.decision, by rw [c.recorded_decision, if_pos rfl], rfl, rfl, rfl, rfl, rfl⟩
    · obtain ⟨d, stored, rest⟩ := core.latest p v r o a id (by simpa using pointer)
      exact ⟨d, grows.decision _ _ stored, rest⟩
  case agreements =>
    intro id a stored
    refine (core.agreements id a (by simpa [Deciding.recorded, decisionEntries] using stored)).mono
      grows fun p found status => ?_
    obtain ⟨q, found, _, same, agreement⟩ := c.keeps found
    exact ⟨q, found, same.trans status, agreement⟩

omit [Sha256] in
theorem findRepresentative_role {policy : AgreementPolicy} {role : Id}
    {representative : RoleRepresentative}
    (found : findRepresentative policy role = some representative) :
    representative.domainRole = role := by
  simpa [Subtype.ext_iff] using List.find?_some found

/-- The agreement has the target of the proposal it was made of. -/
theorem Core.agreement_target (core : Core L config) {id : Id} {a : AgreementRecord}
    (stored : L.agreement id = some a) :
    ∃ p, L.proposal a.proposalId = some p ∧ p.target = a.target ∧ p.status = .activated ∧
      p.agreementId = some a.agreementId := by
  obtain ⟨p, found, status, names⟩ := (core.agreements id a stored).proposal
  obtain ⟨_, _, consumed⟩ := core.proposals _ _ found
  rw [Consumed, status] at consumed
  obtain ⟨b, same, storedB, target⟩ := consumed
  obtain rfl := State.agreement_named stored
  rw [← Option.some.inj (names.symm.trans same), stored] at storedB
  exact ⟨p, found, (Option.some.inj storedB) ▸ target.symm, status, names⟩

/-- A decision leaves an agreement endorsed when it approves it or is on another proposal. -/
theorem Deciding.endorsed (core : Core L config) (c : Deciding L ctx config input) {id : Id}
    {a : AgreementRecord} (stored : L.agreement id = some a) (endorsed : Endorsed L config a)
    (spared : c.decision.decision = .approve ∨ a.proposalId ≠ c.decision.proposalId) :
    Endorsed c.recorded config a := by
  intro policy found role required
  obtain ⟨latest, representative, d, named, same, approves, pointer⟩ :=
    endorsed policy found role required
  have moved : c.recorded.latestOf a.target role representative =
      if a.proposalId = c.decision.proposalId ∧ a.policyVersion = c.decision.policyVersion ∧
          role = c.decision.actorDomainRole ∧ representative.actorOrgId = c.decision.actorOrgId ∧
          representative.actorId = c.decision.actorId then some c.decision.decisionId
      else L.latestOf a.target role representative := by
    simp [Deciding.recorded, decisionEntries, State.latestOf, AgreementRecord.target]
  by_cases hit : a.proposalId = c.decision.proposalId ∧
      a.policyVersion = c.decision.policyVersion ∧ role = c.decision.actorDomainRole ∧
      representative.actorOrgId = c.decision.actorOrgId ∧
      representative.actorId = c.decision.actorId
  · rw [if_pos hit] at moved
    obtain ⟨onProposal, _, sameRole, org, actor⟩ := hit
    have approve := spared.resolve_right (not_not.mpr onProposal)
    obtain ⟨p, foundP, target, _⟩ := core.agreement_target stored
    rw [onProposal, c.proposalStored] at foundP
    obtain rfl := Option.some.inj foundP
    have bound : c.decision.target = a.target := c.bound.symm.trans target
    refine ⟨c.decision.decisionId, representative, c.decision, named, rfl, ?_, moved⟩
    exact ⟨by rw [c.recorded_decision, if_pos rfl], approve, org.symm, actor.symm,
      (sameRole.symm.trans (findRepresentative_role named).symm), bound⟩
  · rw [if_neg hit] at moved
    exact ⟨latest, representative, d, named, same, approves.mono c.grows, moved.trans pointer⟩

end Commands

end Knowledger
