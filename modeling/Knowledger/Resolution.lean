import Knowledger.Manifest

/-!
# Resolution in a state that keeps the invariant

Every stored agreement passes `validateAgreementApprovals`, so a slot with a pointer
resolves to its agreement and no check of `resolveAgreement` fails: what a slot resolves to
depends on the agreements and pointers alone (`resolveAt_still`).
-/

namespace Knowledger

open Js Txn

variable [Sha256] {L M : State} {s t : Store} {config : DomainConfig}

/-! ## Approvals -/

/-- An approval of the typed state is one the store cites. -/
theorem Approves.cites (h : Represents L s) {policy : AgreementPolicy} {a : AgreementRecord}
    {role : Id} {r : RoleRepresentative} {d : ApprovalDecision}
    (named : findRepresentative policy role = some r) (approves : Approves L a.target r d) :
    Cites s policy a role d.decisionId d := by
  obtain ⟨valid, stored⟩ := State.decision_eq.mp approves.stored
  have role_eq := findRepresentative_role named
  refine ⟨⟨Key.toValue (.decision d.decisionId) ⟨d, valid⟩, ?_, validateDecision_stored _⟩,
    approves.kind, approves.role.trans role_eq,
    ⟨r, List.mem_of_find?_eq_some named, role_eq, approves.org, approves.actor⟩, approves.bound⟩
  rw [show keyFor.decision d.decisionId.1 = (Key.decision d.decisionId).text from rfl, h.read,
    stored]
  rfl

/-- The cited ids with their decisions. -/
theorem approved_chosen (h : Represents L s) {policy : AgreementPolicy} {a : AgreementRecord}
    {roles ids : List Id} (approved : List.Forall₂ (Approved L policy a.target) roles ids) :
    ∃ chosen : List (Id × ApprovalDecision), chosen.map Prod.fst = ids ∧
      List.Forall₂ (fun role p => Cites s policy a role p.1 p.2) roles chosen := by
  induction approved with
  | nil => exact ⟨[], rfl, .nil⟩
  | cons first _ ih =>
      obtain ⟨r, d, named, rfl, approves⟩ := first
      obtain ⟨chosen, rfl, rest⟩ := ih
      exact ⟨(d.decisionId, d) :: chosen, rfl, .cons (approves.cites h named) rest⟩

theorem Represents.config_stored (h : Represents L s) (found : L.config = some config) :
    ∃ v, present (s keyFor.config) = some v ∧ validateConfig (some v) = .ok config := by
  obtain ⟨valid, stored⟩ := State.config_eq.mp found
  refine ⟨Key.toValue .config ⟨config, valid⟩, ?_, validateConfig_stored _⟩
  rw [show keyFor.config = Key.config.text from rfl, h.read, stored]
  rfl

/-- Every stored agreement cites one valid approval for each required role. -/
theorem Core.validateApprovals (core : Core L config) (h : Represents L s) {id : Id}
    {a : AgreementRecord} (stored : L.agreement id = some a) :
    ∃ decisions, (validateAgreementApprovals a).eval s = .ok decisions := by
  obtain ⟨configValue, read, validConfig⟩ := h.config_stored core.config_eq
  obtain ⟨⟨policy, revision, backed, approved⟩, -⟩ := core.agreements id a stored
  have valid := State.agreement_valid stored
  obtain ⟨listed, id, version⟩ := findPolicy_some backed.found
  have fits := (State.config_valid core.config_eq).policies policy listed
  obtain ⟨chosen, cited, cites⟩ := approved_chosen h approved
  have run : (collectApprovals a policy policy.requiredDomainRoles []).eval s =
      .ok (chosen.map Prod.snd) := by
    apply (collectApprovals_ok fits.valid valid.nodup fits.valid.roles_nodup List.nodup_nil
      (List.nil_subset _)).mpr
    exact ⟨chosen, List.Perm.of_eq cited, cites, rfl⟩
  refine ⟨_, (validateAgreementApprovals_eval read validConfig valid _).mpr
    ⟨policy, listed, id, version, backed.policySlot, ?_, ?_, approved.length_eq.symm, run⟩⟩
  · exact fits.membership.trans backed.membership.symm
  · exact fits.binding.trans backed.roleBinding.symm

/-! ## The walk -/

/-- The agreement a slot stands for, with its revision. -/
def State.standing (L : State) (slot : Slot) : Option (AgreementRecord × DocumentRevision) := do
  let id ← L.active slot
  let a ← L.agreement id
  let r ← L.revision a.revisionDigest
  return (a, r)

/-- A slot with a pointer resolves to its agreement. -/
theorem Core.resolveAgreement (core : Core L config) (h : Represents L s) (slot : Slot) :
    (resolveAgreement config slot).eval s = .ok ((L.standing slot).elim
      (.error "NO_ACTIVE_AGREEMENT") .ok) := by
  have pointer := h.read_pointer slot
  cases active : L.active slot with
  | none =>
      have nothing : readPointer (present (s (keyFor.activeSlot slot))) = .none := by
        rw [pointer]
        cases found : L.pointer slot with
        | none => rfl
        | some o =>
            obtain rfl : o = none := by simpa [State.active, found] using active
            rfl
      simp only [Knowledger.resolveAgreement, Query.eval_bind, eval_getRecord, ok_bind, nothing,
        Query.eval_pure, State.standing, active, Option.bind_none, Option.elim_none,
        Option.bind_eq_bind]
  | some id =>
      obtain ⟨a, stored, rfl, status⟩ := core.pointed slot id active
      obtain ⟨⟨policy, revision, backed, -⟩, -⟩ := core.agreements id a stored
      obtain ⟨decisions, approved⟩ := core.validateApprovals h stored
      obtain ⟨validA, storedA⟩ := State.agreement_eq.mp stored
      have found : L.revision a.revisionDigest = some revision := backed.stored
      obtain ⟨validR, storedR⟩ := State.revision_eq.mp found
      have points : readPointer (present (s (keyFor.activeSlot a.toSlot))) =
          .agreement (.wellFormed id.1) := by
        rw [pointer, State.active_eq.mp active]
        rfl
      have key : keyOfString .agreement (.wellFormed id.1) = .ok (keyFor.agreement id.1) := rfl
      have readA : present (s (keyFor.agreement id.1)) =
          some (Key.toValue (.agreement id) ⟨a, validA⟩) := by
        rw [show keyFor.agreement id.1 = (Key.agreement id).text from rfl, h.read, storedA]
        rfl
      have readR : present (s (keyFor.revision a.revisionDigest.1)) =
          some (Key.toValue (.revision a.revisionDigest) ⟨revision, validR⟩) := by
        rw [show keyFor.revision a.revisionDigest.1 = (Key.revision a.revisionDigest).text from rfl,
          h.read, storedR]
        rfl
      have policyFound : (findPolicy config a.policyId a.policyVersion).any
          (fun policy => sameSlot policy.toSlot a.toSlot) = true := by
        rw [show findPolicy config a.policyId a.policyVersion = some policy from backed.found]
        exact sameSlot_iff.mpr backed.policySlot
      have membership : a.membershipEpoch = config.membershipEpoch := backed.membership
      have roleBinding : a.roleBindingVersion = config.roleBindingVersion := backed.roleBinding
      have revisionSlot : sameSlot revision.payload.toSlot a.toSlot = true :=
        sameSlot_iff.mpr backed.revisionSlot
      have self : sameSlot a.toSlot a.toSlot = true := sameSlot_iff.mpr rfl
      have accepted : ∀ handler : Thrown → Read Bool, (tryCatch ((fun _ => true) <$>
          validateAgreementApprovals a) handler).eval s = .ok true := by
        intro handler
        rw [Query.eval_tryCatch, Query.eval_map, approved]
        rfl
      simp only [Knowledger.resolveAgreement, Query.eval_bind, eval_getRecord, ok_bind, points,
        Query.eval_lift, key, readA, validateAgreement_stored, status, ne_eq, not_true_eq_false,
        if_false, self, Bool.not_true, Bool.false_eq_true, membership, roleBinding, or_self,
        policyFound, accepted, readR, validateRevision_stored,
        validR.2, revisionSlot, Query.eval_pure, State.standing, active, Option.bind_eq_bind,
        Option.bind_some, stored, found, Option.pure_def, Option.elim_some]

omit [Sha256] in
theorem resolveDependencies_congr {visit : Slot → Nat → Read (ResolveResult × Nat)}
    (same : ∀ slot budget, (visit slot budget).eval s = (visit slot budget).eval t)
    (a : AgreementRecord) (r : DocumentRevision) (dependencies : List RevisionDependency)
    (budget : Nat) : (resolveDependencies visit a r dependencies budget).eval s =
      (resolveDependencies visit a r dependencies budget).eval t := by
  induction dependencies generalizing budget with
  | nil => rfl
  | cons dependency rest ih =>
      simp only [resolveDependencies]
      split_ifs with skipped
      · exact ih budget
      · simp only [Query.eval_bind, same]
        congr 1
        funext result
        split_ifs
        · rfl
        · rfl
        · exact ih result.2

/-- The walk reads the state through `resolveAgreement` alone. -/
theorem resolveInternal_congr
    (same : ∀ slot, (resolveAgreement config slot).eval s = (resolveAgreement config slot).eval t)
    (slot : Slot) (seen : List String) (depth budget : Nat) :
    (resolveInternal config slot seen depth budget).eval s =
      (resolveInternal config slot seen depth budget).eval t := by
  induction fuel : maxDependencyDepth + 1 - depth generalizing slot seen depth budget with
  | zero =>
      have deep : depth > maxDependencyDepth := by omega
      rw [resolveInternal, dif_pos deep]
      split_ifs <;> rfl
  | succ fuel ih =>
      rw [resolveInternal]
      split_ifs
      · rfl
      · rfl
      · rfl
      · rfl
      · simp only [Query.eval_bind, same]
        congr 1
        funext result
        cases result with
        | error reason => rfl
        | ok found =>
            exact resolveDependencies_congr
              (fun dependency budget => ih dependency _ _ budget (by omega)) _ _ _ _

/-- What a slot resolves to depends on the agreements and the pointers alone. -/
theorem resolveAt_still (core : Core L config) (core' : Core M config) (grows : Grows L M)
    (still : Still L M) (hs : Represents L s) (ht : Represents M t) (slot : Slot)
    (seen : List String) (depth budget : Nat) :
    (resolveAt slot seen depth budget).eval t = (resolveAt slot seen depth budget).eval s := by
  have standing : ∀ slot, M.standing slot = L.standing slot := by
    intro slot
    simp only [State.standing, still.active, still.agreement, Option.bind_eq_bind]
    cases active : L.active slot with
    | none => rfl
    | some id =>
        obtain ⟨a, stored, -⟩ := core.pointed slot id active
        obtain ⟨⟨policy, revision, backed, -⟩, -⟩ := core.agreements id a stored
        have found : L.revision a.revisionDigest = some revision := backed.stored
        simp only [Option.bind_some, stored, found, grows.revision _ _ found]
  have same : ∀ slot,
      (resolveAgreement config slot).eval t = (resolveAgreement config slot).eval s := by
    intro slot
    rw [core.resolveAgreement hs, core'.resolveAgreement ht, standing]
  obtain ⟨v, readS, validS⟩ := hs.config_stored core.config_eq
  obtain ⟨u, readT, validT⟩ := ht.config_stored core'.config_eq
  simp only [resolveAt, Query.eval_bind, eval_getRecord, readS, readT, ok_bind, validS, validT]
  split_ifs
  · rfl
  · exact resolveInternal_congr same slot seen depth budget

end Knowledger
