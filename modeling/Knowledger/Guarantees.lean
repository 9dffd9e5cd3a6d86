import Knowledger.Requests

/-!
# What holds of every reachable state

The active slots, the approvals of the active agreements, and the eligibility epoch, each
stated about the values in the store.
-/

namespace Knowledger

open Js Txn

section Slots

variable [Sha256] {s : Store} {L : State} {config : DomainConfig}

/-! ## Stored records -/

/-- The agreement is stored under its own id. -/
def AgreementStored (s : Store) (a : AgreementRecord) : Prop :=
  ∃ v, s (keyFor.agreement a.agreementId.1) = some v ∧ validateAgreement (some v) = .ok a

/-- The decision is stored under its own id. -/
def DecisionStored (s : Store) (d : ApprovalDecision) : Prop :=
  ∃ v, s (keyFor.decision d.decisionId.1) = some v ∧ validateDecision (some v) = .ok d

theorem agreementStored_iff (h : Represents L s) {a : AgreementRecord} :
    AgreementStored s a ↔ L.agreement a.agreementId = some a := by
  have read : s (keyFor.agreement a.agreementId.1) =
      (L (.agreement a.agreementId)).map (Key.toValue _) := h.stored (.agreement a.agreementId)
  simp only [AgreementStored, read, Option.map_eq_some_iff, exists_exists_and_eq_and,
    validateAgreement_stored, State.agreement, Except.ok.injEq]

theorem decisionStored_iff (h : Represents L s) {d : ApprovalDecision} :
    DecisionStored s d ↔ L.decision d.decisionId = some d := by
  have read : s (keyFor.decision d.decisionId.1) =
      (L (.decision d.decisionId)).map (Key.toValue _) := h.stored (.decision d.decisionId)
  simp only [DecisionStored, read, Option.map_eq_some_iff, exists_exists_and_eq_and,
    validateDecision_stored, State.decision, Except.ok.injEq]

/-- A key that is stored under an agreement's name holds that agreement. -/
theorem Represents.agreement_named (h : Represents L s) {name : String} {v : Value}
    (found : s (keyFor.agreement name) = some v) :
    ∃ a, validateAgreement (some v) = .ok a ∧ a.agreementId.1 = name ∧ AgreementStored s a := by
  obtain ⟨k, text⟩ := h.named _ _ found
  obtain ⟨kind, parts⟩ := stateKey_inj.mp text
  cases k <;> simp only [Key.kind, reduceCtorEq] at kind
  case agreement id =>
    obtain rfl : name = id.1 := by simpa [Key.parts] using parts
    have stored := h.stored (.agreement id)
    rw [show (Key.agreement id).text = keyFor.agreement id.1 from rfl, found] at stored
    obtain ⟨a, inside, rfl⟩ := Option.map_eq_some_iff.mp stored.symm
    have named : a.1.agreementId = id := a.2.2
    refine ⟨a.1, validateAgreement_stored a, congrArg Subtype.val named, _, ?_,
      validateAgreement_stored a⟩
    rw [named]
    exact found

/-! ## Active slots -/

/-- **Active slots are consistent.**  A pointer is missing, null, or names an active agreement
of its slot; an active agreement is the one its slot names; so a slot has at most one. -/
theorem active_slots_consistent (reachable : Reachable s) :
    (∀ slot, s (keyFor.activeSlot slot) = none ∨ s (keyFor.activeSlot slot) = some (pointTo none) ∨
      ∃ a, s (keyFor.activeSlot slot) = some (pointTo (some a.agreementId)) ∧
        AgreementStored s a ∧ a.toSlot = slot ∧ a.status = .active) ∧
    (∀ name v, s (keyFor.agreement name) = some v → ∃ a, validateAgreement (some v) = .ok a ∧
      a.agreementId.1 = name ∧ (a.status = .active →
        s (keyFor.activeSlot a.toSlot) = some (pointTo (some a.agreementId)))) ∧
    ∀ a b, AgreementStored s a → AgreementStored s b → a.status = .active → b.status = .active →
      a.toSlot = b.toSlot → a = b := by
  obtain ⟨L, config, h⟩ := reachable.holds
  have pointer : ∀ slot, s (keyFor.activeSlot slot) = (L.pointer slot).map pointTo :=
    fun slot => h.represents.stored (.activeSlot slot)
  refine ⟨fun slot => ?_, fun name v found => ?_, fun a b storedA storedB activeA activeB same => ?_⟩
  · rw [pointer]
    cases named : L.pointer slot with
    | none => exact Or.inl rfl
    | some o =>
        cases o with
        | none => exact Or.inr (Or.inl rfl)
        | some id =>
            obtain ⟨a, stored, slot, status⟩ := h.core.pointed slot id (State.active_eq.mpr named)
            obtain rfl := State.agreement_named stored
            exact Or.inr (Or.inr ⟨a, rfl, (agreementStored_iff h.represents).mpr stored, slot,
              status⟩)
  · obtain ⟨a, valid, id, stored⟩ := h.represents.agreement_named found
    refine ⟨a, valid, id, fun active => ?_⟩
    have stored := (agreementStored_iff h.represents).mp stored
    rw [pointer, State.active_eq.mp (h.core.indexed _ a stored active)]
    rfl
  · have storedA := (agreementStored_iff h.represents).mp storedA
    have storedB := (agreementStored_iff h.represents).mp storedB
    have id := h.core.unique_active storedA activeA storedB activeB same
    rw [id, storedB] at storedA
    exact (Option.some.inj storedA).symm

end Slots

namespace Demo

@[reducible] local instance : Sha256 := sha256

theorem fenced_reachable : Reachable (fenceCall.commit store) :=
  ⟨store, [fenceCall], bootstrapped, rfl⟩

/-- The pointer of a slot behind a fence. -/
theorem active_slots_consistent_fenced :
    fenceCall.commit store (keyFor.activeSlot (slot (name "base"))) = none ∨
      fenceCall.commit store (keyFor.activeSlot (slot (name "base"))) = some (pointTo none) ∨
      ∃ a, fenceCall.commit store (keyFor.activeSlot (slot (name "base"))) =
          some (pointTo (some a.agreementId)) ∧
        AgreementStored (fenceCall.commit store) a ∧ a.toSlot = slot (name "base") ∧
        a.status = .active :=
  (active_slots_consistent fenced_reachable).1 (slot (name "base"))

end Demo

section Approvals

variable [Sha256] {s : Store} {L : State} {config : DomainConfig}

/-! ## Approvals -/

/-- The store's latest decision of the representative on the agreement's proposal. -/
def LatestDecision (s : Store) (a : AgreementRecord) (role : Id)
    (representative : RoleRepresentative) (d : ApprovalDecision) : Prop :=
  s (keyFor.latestDecision a.proposalId.1 a.policyVersion.1 role.1 representative.actorOrgId.1
    representative.actorId.1) = some (record [("decision_id", jsonString d.decisionId.1)]) ∧
  DecisionStored s d

theorem Endorsed.stored (h : Holds s L config) {a : AgreementRecord}
    (endorsed : Endorsed L config a) {policy : AgreementPolicy}
    (found : findPolicy config a.policyId a.policyVersion = some policy) {role : Id}
    (required : role ∈ policy.requiredDomainRoles) :
    ∃ representative d, findRepresentative policy role = some representative ∧
      LatestDecision s a role representative d ∧ d.decision = .approve ∧ d.target = a.target := by
  obtain ⟨_, representative, d, named, rfl, approves, latest⟩ := endorsed policy found role required
  refine ⟨representative, d, named, ⟨?_, (decisionStored_iff h.represents).mpr approves.stored⟩,
    approves.kind, approves.bound⟩
  have read := h.represents.stored (.latestDecision a.proposalId a.policyVersion role
    representative.actorOrgId representative.actorId)
  rw [show L (.latestDecision a.proposalId a.policyVersion role representative.actorOrgId
    representative.actorId) = some d.decisionId from latest] at read
  exact read

/-- The suspension touches neither reviews nor proposals. -/
theorem Deciding.after {ctx : Context} {input : Fields} (c : Deciding L ctx config input) :
    SameReviews c.recorded (L.putAll c.entries) ∧
      ∀ id, (L.putAll c.entries).proposal id = c.recorded.proposal id := by
  rw [c.putAll_entries]
  cases c.suspension with
  | none => exact ⟨by constructor <;> intros <;> rfl, fun _ => rfl⟩
  | some u => exact ⟨u.sameReviews, fun id => @close_proposal _ c.recorded u.agreement .suspended
      (suspensionReason c.decision.decision) ctx (AgreementRecord.withStatus_valid u.valid)
      u.epoch id⟩

omit [Sha256] in
/-- The named representatives are of required roles. -/
theorem findRepresentative_required (valid : config.Valid) {policy : AgreementPolicy}
    {id role : Id} {version : SafeInt 1} (found : findPolicy config id version = some policy)
    {representative : RoleRepresentative}
    (named : findRepresentative policy role = some representative) :
    role ∈ policy.requiredDomainRoles := by
  have fits := (valid.policies policy (findPolicy_some found).1).valid
  have listed := List.mem_of_find?_eq_some named
  rw [← findRepresentative_role named]
  exact fits.representatives.mem_required _ listed

/-- A decision that does not approve leaves no agreement of its proposal active. -/
theorem Deciding.refuses {ctx : Context} {input : Fields} (h : Holds s L config)
    (c : Deciding L ctx config input) (refuses : c.decision.decision ≠ .approve)
    {a : AgreementRecord} (stored : (L.putAll c.entries).agreement a.agreementId = some a)
    (onProposal : a.proposalId = c.decision.proposalId) : a.status ≠ .active := by
  intro active
  obtain ⟨same, proposal⟩ := c.after
  have target : a.target = c.decision.target := by
    obtain ⟨p, found, target, -⟩ := (c.core_entries h.core).agreement_target stored
    rw [onProposal, proposal, c.recorded_proposal, if_pos rfl] at found
    obtain rfl := Option.some.inj found
    exact target.symm.trans c.bound
  have endorsed := c.live_entries h.core h.live _ a stored active
  obtain ⟨representative, named, org, actor⟩ := c.actor.named
  have required := findRepresentative_required (State.config_valid h.core.config_eq) c.found named
  have found : findPolicy config a.policyId a.policyVersion = some c.policy := by
    rw [show a.policyId = c.decision.policyId from congrArg Target.policyId target,
      show a.policyVersion = c.decision.policyVersion from congrArg Target.policyVersion target,
      c.found]
  obtain ⟨id, r, d, named', rfl, approves, latest⟩ := endorsed _ found _ required
  obtain rfl := Option.some.inj (named.symm.trans named')
  have pointer : (L.putAll c.entries).latestOf a.target c.decision.actorDomainRole representative =
      some c.decision.decisionId := by
    rw [target, State.latestOf, same.latest, org, actor]
    simp [Deciding.recorded, decisionEntries, ApprovalDecision.target]
  have current : (L.putAll c.entries).decision c.decision.decisionId = some c.decision := by
    rw [same.decision, c.recorded_decision, if_pos rfl]
  have names := Option.some.inj (pointer.symm.trans latest)
  have storedD := approves.stored
  rw [← names, current] at storedD
  obtain rfl := Option.some.inj storedD
  exact refuses approves.kind

theorem Performs.deciding {ctx : Context} {command : DomainCommand} {r : Value} {es : List Entry}
    (performs : Performs L ctx config command r es) (type : command.type.1 = "decide") :
    ∃ c : Deciding L ctx config command.input, r = c.result ∧ es = c.entries := by
  cases performs with
  | decide c _ => exact ⟨c, rfl, rfl⟩
  | republish c other | publish c other | propose c other | activate c other
  | withdraw c other | suspend c other | fence c other =>
      rw [type] at other
      exact absurd other (by decide)

/-- **Active agreements carry live unanimous approval.**  The latest decision of every required
representative approves an active agreement, and every stored agreement passes
`validateAgreementApprovals`; no call that records another decision on its proposal leaves an
agreement active. -/
theorem active_agreements_approved (reachable : Reachable s) :
    ∃ config, readConfig.eval s = .ok config ∧
    (∀ a, AgreementStored s a → a.status = .active →
      ∃ policy, findPolicy config a.policyId a.policyVersion = some policy ∧
        ∀ role ∈ policy.requiredDomainRoles, ∃ representative d,
          findRepresentative policy role = some representative ∧
          LatestDecision s a role representative d ∧ d.decision = .approve ∧
          d.target = a.target) ∧
    (∀ a, AgreementStored s a → ∃ ds, (validateAgreementApprovals a).eval s = .ok ds) ∧
    ∀ (c : Call) result w request d, c.program.simulate s [] = .ok (result, w) → w ≠ [] →
      validateCommand c.command = .ok request → request.type.1 = "decide" →
      validateDecision (request.input.get "decision") = .ok d → d.decision ≠ .approve →
      ∀ a, AgreementStored (w.over s) a → a.proposalId = d.proposalId → a.status ≠ .active := by
  obtain ⟨L, config, h⟩ := reachable.holds
  refine ⟨config, h.represents.read_config.mpr h.core.config_eq, fun a stored active => ?_,
    fun a stored => h.core.validateApprovals h.represents
      ((agreementStored_iff h.represents).mp stored), ?_⟩
  · have stored := (agreementStored_iff h.represents).mp stored
    obtain ⟨⟨policy, revision, backed, -⟩, -⟩ := h.core.agreements _ a stored
    exact ⟨policy, backed.found, fun role required =>
      (h.live _ a stored active).stored h backed.found required⟩
  · intro c result w request d run writes valid type decided refuses a stored onProposal
    rcases (execute_ok h.represents).mp run with ⟨replay, rfl, rfl⟩ | ⟨x, rfl, rfl⟩
    · exact absurd rfl writes
    · obtain rfl := Except.ok.inj (x.request_eq.symm.trans valid)
      have same := x.config_unique h.core
      subst same
      obtain ⟨deciding, -, entries⟩ := x.performs.deciding type
      obtain rfl := Except.ok.inj (deciding.decision_eq.symm.trans decided)
      have stored := (agreementStored_iff (represents_putAll h.represents _)).mp stored
      rw [x.sameCore.agreement, entries] at stored
      exact deciding.refuses h refuses stored onProposal

end Approvals

namespace Demo

@[reducible] local instance : Sha256 := sha256

/-- The stored agreements behind a fence pass their approval check. -/
theorem active_agreements_approved_fenced :
    ∃ config, readConfig.eval (fenceCall.commit store) = .ok config ∧
      ∀ a, AgreementStored (fenceCall.commit store) a →
        ∃ ds, (validateAgreementApprovals a).eval (fenceCall.commit store) = .ok ds := by
  obtain ⟨config, read, -, approved, -⟩ := active_agreements_approved fenced_reachable
  exact ⟨config, read, approved⟩

end Demo

section Epoch

variable [Sha256] {s : Store} {L : State} {config : DomainConfig}

/-! ## The epoch -/

theorem Holds.epoch_stored (h : Holds s L config) :
    s keyFor.eligibilityEpoch = some (jsonNat L.epoch) := by
  obtain ⟨n, found⟩ := h.core.epoch
  have stored := h.represents.stored .eligibilityEpoch
  rw [show L .eligibilityEpoch = some n from found] at stored
  rw [State.epoch, found]
  exact stored

/-- **The epoch is a freshness fence.**  Along a run it counts the committed changes of status,
and while it stays the same every slot resolves to the same result. -/
theorem eligibility_epoch_fences {s₀ : Store} (b : Bootstrapped s₀) (before between : List Call) :
    ∃ m n, runAll before s₀ keyFor.eligibilityEpoch = some (jsonNat m) ∧
      runAll (before ++ between) s₀ keyFor.eligibilityEpoch = some (jsonNat n) ∧ m ≤ n ∧
      n = m + statusChanges between (runAll before s₀) ∧
      (m = n → ∀ slot seen depth budget,
        (resolveAt slot seen depth budget).eval (runAll before s₀) =
          (resolveAt slot seen depth budget).eval (runAll (before ++ between) s₀)) := by
  obtain ⟨L₀, config, h₀, -⟩ := b.holds
  obtain ⟨L, h, -⟩ := h₀.runAll before
  obtain ⟨M, h', grows, epoch, still⟩ := h.runAll between
  rw [runAll_append]
  refine ⟨L.epoch, M.epoch, h.epoch_stored, h'.epoch_stored, by omega, epoch, fun same => ?_⟩
  intro slot seen depth budget
  exact (resolveAt_still h.core h'.core grows (still (by omega)) h.represents h'.represents slot
    seen depth budget).symm

end Epoch

namespace Demo

@[reducible] local instance : Sha256 := sha256

/-- The epoch before and behind a fence. -/
theorem eligibility_epoch_fences_fenced : ∃ m n,
    store keyFor.eligibilityEpoch = some (jsonNat m) ∧
      fenceCall.commit store keyFor.eligibilityEpoch = some (jsonNat n) ∧
      n = m + statusChanges [fenceCall] store := by
  obtain ⟨m, n, first, last, -, counts, -⟩ := eligibility_epoch_fences bootstrapped [] [fenceCall]
  exact ⟨m, n, first, last, counts⟩

end Demo

/-! ## Approval manifests -/

section Manifests

variable {s : Store} {config : DomainConfig} {configValue : Value} {a : AgreementRecord}

/-- For every store with a valid config and every valid agreement, the approvals are accepted
just when the manifest is exact, whatever the order of the cited ids, and the decisions that
are returned do not depend on that order either. -/
theorem approval_manifest_exact {input : Value}
    (configured : present (s keyFor.config) = some configValue)
    (validConfig : validateConfig (some configValue) = .ok config)
    (validInput : validateAgreement (some input) = .ok a) :
    ((∃ ds, (validateAgreementApprovals a).eval s = .ok ds) ↔
        ∃ policy assigned, ExactManifest s config a policy assigned) ∧
      (∀ e, (validateAgreementApprovals a).eval s = .error e → isCorruptState e = true) ∧
      ∀ ids, ids.Perm a.approvalDecisionIds → ∀ ds,
        (validateAgreementApprovals { a with approvalDecisionIds := ids }).eval s = .ok ds ↔
          (validateAgreementApprovals a).eval s = .ok ds := by
  have valid := validateAgreement_valid _ _ validInput
  refine ⟨?_, validateAgreementApprovals_fails configured validConfig valid, fun ids perm ds => ?_⟩
  · constructor
    · rintro ⟨ds, run⟩
      obtain ⟨policy, assigned, exactly, -⟩ :=
        (validateAgreementApprovals_ok configured validConfig valid).mp run
      exact ⟨policy, assigned, exactly⟩
    · rintro ⟨policy, assigned, exactly⟩
      obtain ⟨ds, cites⟩ := exists_forall₂ exactly.cited
      exact ⟨ds, (validateAgreementApprovals_ok configured validConfig valid).mpr
        ⟨policy, assigned, exactly, cites⟩⟩
  · have validIds : AgreementRecord.Valid { a with approvalDecisionIds := ids } :=
      ⟨perm.length_eq ▸ valid.nonempty, perm.length_eq ▸ valid.length_le,
        perm.nodup_iff.mpr valid.nodup⟩
    rw [validateAgreementApprovals_ok configured validConfig validIds,
      validateAgreementApprovals_ok configured validConfig valid]
    have cites policy (role id : Id) (d : ApprovalDecision) :
        Cites s policy { a with approvalDecisionIds := ids } role id d ↔
          Cites s policy a role id d :=
      ⟨fun ⟨recorded, kind, inRole, representative, bound⟩ =>
        ⟨recorded, kind, inRole, representative, bound⟩,
        fun ⟨recorded, kind, inRole, representative, bound⟩ =>
        ⟨recorded, kind, inRole, representative, bound⟩⟩
    simp only [cites]
    have reorder policy assigned :
        ExactManifest s config { a with approvalDecisionIds := ids } policy assigned ↔
          ExactManifest s config a policy assigned := ⟨.reorder perm, .reorder perm.symm⟩
    simp only [reorder]

end Manifests

namespace Demo

@[reducible] local instance : Sha256 := sha256

/-- The owner approves the revision of the digest. -/
def approval : ApprovalDecision where
  toSlot := slot (name "base" base_isId)
  decisionId := name "approval"
  revisionDigest := ⟨"sha256:0000000000000000000000000000000000000000000000000000000000000000", by decide⟩
  policyId := name "base" base_isId
  policyVersion := ⟨1, SafeInt.one_valid⟩
  membershipEpoch := ⟨1, SafeInt.one_valid⟩
  roleBindingVersion := ⟨1, SafeInt.one_valid⟩
  actorOrgId := owner.orgId
  actorId := owner.actorId
  subjectId := name "subject"
  actorDomainRole := name "role" role_isId
  decision := .approve
  rationale := ⟨"agreed", by decide⟩
  decidedAt := ⟨"2026-01-01", date_fits⟩
  proposalId := name "proposal"
  retractsDecisionId := none

/-- The agreement that cites the approval. -/
def approvedAgreement : AgreementRecord where
  toSlot := slot (name "base" base_isId)
  agreementId := name "agreement"
  proposalId := name "proposal"
  revisionDigest := approval.revisionDigest
  policyId := name "base" base_isId
  policyVersion := ⟨1, SafeInt.one_valid⟩
  membershipEpoch := ⟨1, SafeInt.one_valid⟩
  roleBindingVersion := ⟨1, SafeInt.one_valid⟩
  approvalDecisionIds := [name "approval"]
  status := .active
  activatedBy := owner
  activatedAt := ⟨"2026-01-01", date_fits⟩
  statusReason := none
  statusChangedBy := none
  statusChangedAt := none

/-- The config and the approval alone. -/
def approvedStore : Store := fun key =>
  if key = keyFor.config then some config.toJson
  else if key = keyFor.decision approval.decisionId.1 then some approval.toJson
  else none

theorem approval_recorded : Recorded approvedStore approval.decisionId approval := by
  refine ⟨approval.toJson, ?_, validateDecision_json ⟨nofun, nofun⟩⟩
  rw [approvedStore, if_neg (by decide), if_pos rfl]
  rfl

/-- One id and one role: the manifest is exact, so the approvals pass. -/
theorem approval_manifest_exact_single :
    ∃ ds, (validateAgreementApprovals approvedAgreement).eval approvedStore = .ok ds := by
  have manifest : ExactManifest approvedStore config approvedAgreement (policy (name "base"))
      (fun _ => name "approval") :=
    { listed := by simp [config]
      id := rfl
      version := rfl
      slot := rfl
      membership := rfl
      roleBinding := rfl
      matching := by
        rw [bijOn_iff_perm (by simp [policy]) (by simp [approvedAgreement])]
        rfl
      cited := by
        intro role mem
        obtain rfl := List.mem_singleton.mp mem
        exact ⟨approval, approval_recorded, rfl, rfl, ⟨_, List.mem_cons_self, rfl, rfl, rfl⟩, rfl⟩ }
  have stored : present (approvedStore keyFor.config) = some config.toJson := by
    rw [approvedStore, if_pos rfl]
    rfl
  have accepted : AgreementRecord.Valid approvedAgreement := ⟨by decide, by decide, by decide⟩
  exact (approval_manifest_exact stored (validateConfig_json config_valid)
    (validateAgreement_json accepted)).1.mpr ⟨_, _, manifest⟩

end Demo

end Knowledger
