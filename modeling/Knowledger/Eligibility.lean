import Knowledger.Requests
import Knowledger.Resolution
import Knowledger.Lib.Derivation

/-!
# What resolution calls eligible

On any store, whatever is recorded there, the walk of `resolveAt` looks for a derivation: the
slot stands for an active agreement and its revision, and so does every slot that the revision
requires, with the revision that it names.  The walk finds one whenever there is one without a
repeated slot on a path, at most eight edges deep and with at most 256 nodes, in any order of
the dependencies.  It throws only where it comes to a pointer whose agreement has no key.
-/

namespace Knowledger

open Js Txn Derivation

section Eligibility

variable [Sha256] {s : Store} {config : DomainConfig} {configValue : Value}

/-! ## What a slot stands for -/

/-- The active pointer of the slot names a stored valid agreement. -/
def PointsTo (s : Store) (slot : Slot) (a : AgreementRecord) : Prop :=
  ∃ id : String, readPointer (present (s (keyFor.activeSlot slot))) = .agreement (.wellFormed id) ∧
    ∃ value, present (s (keyFor.agreement id)) = some value ∧
      validateAgreement (some value) = .ok a

/-- The slot stands for the agreement and its revision, its dependencies aside. -/
structure Standing (s : Store) (config : DomainConfig) (slot : Slot) (a : AgreementRecord)
    (r : DocumentRevision) : Prop where
  pointer : PointsTo s slot a
  active : a.status = .active
  agreementSlot : a.toSlot = slot
  membership : a.membershipEpoch = config.membershipEpoch
  roleBinding : a.roleBindingVersion = config.roleBindingVersion
  policy : ∃ p ∈ config.policies, p.policyId = a.policyId ∧ p.policyVersion = a.policyVersion ∧
    p.toSlot = slot
  approvals : ∃ decisions, (validateAgreementApprovals a).eval s = .ok decisions
  revision : ∃ value, present (s (keyFor.revision a.revisionDigest.1)) = some value ∧
    validateRevision (some value) = .ok r
  digest : r.revisionDigest = a.revisionDigest
  revisionSlot : r.payload.toSlot = slot

/-- The active pointer of the slot names an agreement that no key can name. -/
def Unnameable (s : Store) (slot : Slot) : Prop :=
  ∃ units unpaired, readPointer (present (s (keyFor.activeSlot slot))) =
    .agreement (.illFormed units unpaired)

omit [Sha256] in
/-- A pointer that names nothing points to nothing. -/
theorem not_pointing {slot : Slot}
    (unnamed : ∀ name, readPointer (present (s (keyFor.activeSlot slot))) ≠ .agreement name) :
    ¬ Unnameable s slot ∧ ∀ a, ¬ PointsTo s slot a :=
  ⟨fun ⟨_, _, named⟩ => unnamed _ named, fun _ ⟨_, named, _⟩ => unnamed _ named⟩

omit [Sha256] in
/-- A pointer with a key points to the agreement that is stored under it. -/
theorem pointing {slot : Slot} {id : String} (pointer : readPointer (present
    (s (keyFor.activeSlot slot))) = .agreement (.wellFormed id)) :
    ¬ Unnameable s slot ∧ ∀ a, PointsTo s slot a → ∃ value,
      present (s (keyFor.agreement id)) = some value ∧ validateAgreement (some value) = .ok a := by
  constructor
  · rintro ⟨units, unpaired, named⟩
    cases pointer.symm.trans named
  · rintro a ⟨id', named, stored⟩
    cases pointer.symm.trans named
    exact stored

omit [Sha256] in
/-- The policy that an agreement cites is of the slot of the agreement. -/
theorem policy_any_iff (valid : config.Valid) {a : AgreementRecord} :
    (findPolicy config a.policyId a.policyVersion).any
        (fun policy => sameSlot policy.toSlot a.toSlot) = true ↔
      ∃ p ∈ config.policies, p.policyId = a.policyId ∧ p.policyVersion = a.policyVersion ∧
        p.toSlot = a.toSlot := by
  rw [Option.any_eq_true]
  constructor
  · rintro ⟨p, found, same⟩
    obtain ⟨listed, id, version⟩ := findPolicy_some found
    exact ⟨p, listed, id, version, sameSlot_iff.mp same⟩
  · rintro ⟨p, listed, id, version, same⟩
    refine ⟨p, ?_, sameSlot_iff.mpr same⟩
    rw [← id, ← version]
    exact findPolicy_mem valid listed

section Look

variable (configured : present (s keyFor.config) = some configValue)
  (validConfig : validateConfig (some configValue) = .ok config)

include configured validConfig

omit [Sha256] in
/-- A check of the approvals that fails is caught. -/
theorem approved_eval {a : AgreementRecord} (valid : a.Valid) :
    (tryCatch ((fun _ => true) <$> validateAgreementApprovals a)
      (fun error => if isCorruptState error then pure false else throw error) : Read Bool).eval s =
        .ok true ∧ (∃ decisions, (validateAgreementApprovals a).eval s = .ok decisions) ∨
    (tryCatch ((fun _ => true) <$> validateAgreementApprovals a)
      (fun error => if isCorruptState error then pure false else throw error) : Read Bool).eval s =
        .ok false ∧ ¬ ∃ decisions, (validateAgreementApprovals a).eval s = .ok decisions := by
  have fails := validateAgreementApprovals_fails configured validConfig valid
  rw [Query.eval_tryCatch, Query.eval_map]
  cases run : (validateAgreementApprovals a).eval s with
  | ok decisions => exact .inl ⟨rfl, decisions, rfl⟩
  | error e =>
      refine .inr ⟨?_, by simp⟩
      change (if isCorruptState e then (pure false : Read Bool) else throw e).eval s = .ok false
      rw [if_pos (fails e run)]
      rfl

/-- Either the slot stands for what is returned, or it stands for nothing, or its pointer has
no key. -/
theorem resolveAgreement_cases (slot : Slot) :
    (∃ a r, (resolveAgreement config slot).eval s = .ok (.ok (a, r)) ∧ Standing s config slot a r) ∨
    (∃ reason, (resolveAgreement config slot).eval s = .ok (.error reason) ∧
      ¬ Unnameable s slot ∧ ¬ ∃ a r, Standing s config slot a r) ∨
    ((resolveAgreement config slot).eval s = .error .uriError ∧ Unnameable s slot) := by
  have nothing : ∀ {reason}, ¬ Unnameable s slot →
      (∀ a, PointsTo s slot a → ∀ r, ¬ Standing s config slot a r) →
      ∃ reason', (.ok (.error reason) : Except Thrown (Except String
        (AgreementRecord × DocumentRevision))) = .ok (.error reason') ∧
        ¬ Unnameable s slot ∧ ¬ ∃ a r, Standing s config slot a r := by
    intro reason nameable refused
    exact ⟨reason, rfl, nameable, fun ⟨a, r, standing⟩ => refused a standing.pointer r standing⟩
  simp only [resolveAgreement, Query.eval_bind, eval_getRecord, ok_bind]
  cases pointer : readPointer (present (s (keyFor.activeSlot slot))) with
  | none =>
      have unnamed : ∀ name, readPointer (present (s (keyFor.activeSlot slot))) ≠
          .agreement name := by simp [pointer]
      obtain ⟨nameable, nowhere⟩ := not_pointing unnamed
      exact .inr (.inl (nothing nameable fun a names => absurd names (nowhere a)))
  | corrupt =>
      have unnamed : ∀ name, readPointer (present (s (keyFor.activeSlot slot))) ≠
          .agreement name := by simp [pointer]
      obtain ⟨nameable, nowhere⟩ := not_pointing unnamed
      exact .inr (.inl (nothing nameable fun a names => absurd names (nowhere a)))
  | agreement name =>
      cases name with
      | illFormed units unpaired => exact .inr (.inr ⟨rfl, units, unpaired, pointer⟩)
      | wellFormed id =>
          obtain ⟨nameable, points⟩ := pointing pointer
          have key : keyOfString .agreement (.wellFormed id) = .ok (keyFor.agreement id) := rfl
          simp only [Query.eval_bind, Query.eval_lift, key, ok_bind, eval_getRecord]
          cases stored : present (s (keyFor.agreement id)) with
          | none =>
              refine .inr (.inl (nothing nameable fun a names => ?_))
              obtain ⟨value, found, -⟩ := points a names
              rw [stored] at found
              cases found
          | some value =>
              dsimp only
              cases valid : validateAgreement (some value) with
              | error e =>
                  refine .inr (.inl (nothing nameable fun a names => ?_))
                  obtain ⟨value', found, valid'⟩ := points a names
                  rw [stored] at found
                  cases found
                  rw [valid] at valid'
                  cases valid'
              | ok a =>
                  have only : ∀ b, PointsTo s slot b → b = a := by
                    intro b names
                    obtain ⟨value', found, valid'⟩ := points b names
                    rw [stored] at found
                    cases found
                    exact (Except.ok.inj (valid.symm.trans valid')).symm
                  have refuse : ∀ {reason}, (∀ r, ¬ Standing s config slot a r) →
                      ∃ reason', (.ok (.error reason) : Except Thrown (Except String
                        (AgreementRecord × DocumentRevision))) = .ok (.error reason') ∧
                        ¬ Unnameable s slot ∧ ¬ ∃ a r, Standing s config slot a r := fun refused =>
                    nothing nameable fun b names r standing => refused r (only b names ▸ standing)
                  have fits := validateConfig_valid _ _ validConfig
                  have accepts := approved_eval configured validConfig
                    (validateAgreement_valid _ _ valid)
                  dsimp only
                  split_ifs with inactive elsewhere stale lapsed
                  · exact .inr (.inl (refuse fun r standing => inactive standing.active))
                  · refine .inr (.inl (refuse fun r standing => ?_))
                    rw [sameSlot_iff.mpr standing.agreementSlot] at elsewhere
                    cases elsewhere
                  · refine .inr (.inl (refuse fun r standing => ?_))
                    exact stale.elim (· standing.membership) (· standing.roleBinding)
                  · refine .inr (.inl (refuse fun r standing => ?_))
                    have same := standing.agreementSlot
                    rw [policy_any_iff fits |>.mpr (same ▸ standing.policy)] at lapsed
                    cases lapsed
                  · rw [Query.eval_bind]
                    rcases accepts with ⟨accepts, approvals⟩ | ⟨refuses, refused⟩
                    · rw [accepts]
                      simp only [ok_bind, Bool.not_true, Bool.false_eq_true, if_false,
                        Query.eval_bind, eval_getRecord]
                      cases kept : present (s (keyFor.revision a.revisionDigest.1)) with
                      | none =>
                          refine .inr (.inl (refuse fun r standing => ?_))
                          obtain ⟨value', found, -⟩ := standing.revision
                          rw [kept] at found
                          cases found
                      | some content =>
                          dsimp only
                          cases whole : validateRevision (some content) with
                          | error e =>
                              refine .inr (.inl (refuse fun r standing => ?_))
                              obtain ⟨content', found, whole'⟩ := standing.revision
                              rw [kept] at found
                              cases found
                              rw [whole] at whole'
                              cases whole'
                          | ok r =>
                              dsimp only
                              split_ifs with other
                              · refine .inr (.inl (refuse fun r' standing => ?_))
                                obtain ⟨content', found, whole'⟩ := standing.revision
                                rw [kept] at found
                                cases found
                                cases whole.symm.trans whole'
                                rw [sameSlot_iff.mpr standing.revisionSlot] at other
                                exact other.elim (· standing.digest) (by simp)
                              · obtain ⟨digest, revisionSlot⟩ := not_or.mp other
                                obtain ⟨membership, roleBinding⟩ := not_or.mp stale
                                have same : a.toSlot = slot := by simpa using elsewhere
                                have policy := (policy_any_iff fits).mp (by simpa using lapsed)
                                refine .inl ⟨a, r, rfl, ⟨id, pointer, value, stored, valid⟩,
                                  not_not.mp inactive, same, not_not.mp membership,
                                  not_not.mp roleBinding, same ▸ policy, approvals,
                                  ⟨content, kept, whole⟩, not_not.mp digest, ?_⟩
                                simpa using revisionSlot
                    · rw [refuses]
                      exact .inr (.inl (refuse fun r standing => refused standing.approvals))

end Look

/-! ## The walk in any order -/

/-- `resolveInternal`, visiting the dependencies of each revision in the given order. -/
def resolveInternalIn (order : DocumentRevision → List RevisionDependency) (config : DomainConfig)
    (slot : Slot) (seen : List String) (depth budget : Nat) : Read (ResolveResult × Nat) :=
  if slot.channelId ≠ config.channelId then pure (ineligible "SCOPE_MISMATCH", budget)
  else if _deep : depth > maxDependencyDepth then pure (ineligible "DEPENDENCY_DEPTH", budget)
  else if seen.contains (slotKey slot) then pure (ineligible "DEPENDENCY_CYCLE", budget)
  else if budget + 1 > maxDependencyNodes then
    pure (ineligible "DEPENDENCY_NODE_LIMIT", budget + 1)
  else do
    match ← resolveAgreement config slot with
    | .error reason => return (ineligible reason, budget + 1)
    | .ok (agreement, revision) =>
        resolveDependencies
          (fun dependency budget =>
            resolveInternalIn order config dependency (slotKey slot :: seen) (depth + 1) budget)
          agreement revision (order revision) (budget + 1)
termination_by maxDependencyDepth + 1 - depth

/-- The order in which a revision lists its dependencies. -/
def listed (r : DocumentRevision) : List RevisionDependency := r.payload.dependencies

theorem resolveInternalIn_listed : resolveInternalIn listed = resolveInternal := by
  funext config slot seen depth budget
  induction fuel : maxDependencyDepth + 1 - depth generalizing slot seen depth budget with
  | zero =>
      have deep : depth > maxDependencyDepth := by omega
      rw [resolveInternal, resolveInternalIn, dif_pos deep, dif_pos deep]
  | succ fuel ih =>
      have visits : (fun dependency : Slot => resolveInternalIn listed config dependency
          (slotKey slot :: seen) (depth + 1)) = fun dependency =>
            resolveInternal config dependency (slotKey slot :: seen) (depth + 1) := by
        funext dependency budget
        exact ih dependency _ _ budget (by omega)
      rw [resolveInternal, resolveInternalIn]
      simp only [visits, listed] <;> rfl

/-- The edges that a revision requires to be active. -/
def requiredEdges (dependencies : List RevisionDependency) : List (Slot × Digest) :=
  (dependencies.filter fun dependency => dependency.enforcement = .requiresActive).map
    fun dependency => (dependency.toSlot, dependency.revisionDigest)

/-- What the walk finds at a slot. -/
def lookSlot (order : DocumentRevision → List RevisionDependency) (s : Store)
    (config : DomainConfig) (slot : Slot) :
    Except Thrown (Option (Digest × List (Slot × Digest))) :=
  if slot.channelId ≠ config.channelId then .ok none
  else (resolveAgreement config slot).eval s >>= fun found =>
    .ok (found.toOption.map fun p => (p.2.revisionDigest, requiredEdges (order p.2)))

/-- The walk and the search come to the same end. -/
inductive SameEnd : Except Thrown (Option (Digest × Nat)) → Except Thrown (ResolveResult × Nat) → Prop
  | throws (e : Thrown) : SameEnd (.error e) (.error e)
  | nothing (reason : String) (budget : Nat) : SameEnd (.ok none) (.ok (ineligible reason, budget))
  | finds (a : AgreementRecord) (r : DocumentRevision) (budget : Nat) :
      SameEnd (.ok (some (r.revisionDigest, budget))) (.ok (eligible a r, budget))

section SameEnd

variable {x : Except Thrown (Option (Digest × Nat))} {y : Except Thrown (ResolveResult × Nat)}

omit [Sha256] in
theorem SameEnd.eligible_iff (same : SameEnd x y) :
    (∃ result, y = .ok result ∧ result.1.eligible = true) ↔ ∃ d used, x = .ok (some (d, used)) := by
  cases same with
  | throws e => simp
  | nothing reason budget => simp [ineligible]
  | finds a r budget => simp [eligible]

omit [Sha256] in
theorem SameEnd.error_iff (same : SameEnd x y) {e : Thrown} : y = .error e ↔ x = .error e := by
  cases same with
  | throws e => simp
  | nothing reason budget => simp
  | finds a r budget => simp

end SameEnd

omit [Sha256] in
theorem resolveDependencies_sameEnd {visit : Slot → Nat → Read (ResolveResult × Nat)}
    {visit' : Nat → Slot → Except Thrown (Option (Digest × Nat))}
    (visits : ∀ slot budget, SameEnd (visit' budget slot) ((visit slot budget).eval s))
    (a : AgreementRecord) (r : DocumentRevision) (dependencies : List RevisionDependency)
    (budget : Nat) :
    SameEnd (do
      match ← searchAll visit' (requiredEdges dependencies) budget with
      | none => return none
      | some used => return some (r.revisionDigest, used))
      ((resolveDependencies visit a r dependencies budget).eval s) := by
  induction dependencies generalizing budget with
  | nil => exact .finds a r budget
  | cons dependency rest ih =>
      rw [resolveDependencies]
      split_ifs with skipped
      · rw [requiredEdges, List.filter_cons_of_neg (by simpa using skipped)]
        exact ih budget
      · rw [requiredEdges, List.filter_cons_of_pos (by simpa using skipped), List.map_cons,
          searchAll, Query.eval_bind]
        have first := visits dependency.toSlot budget
        revert first
        generalize visit' budget dependency.toSlot = found
        generalize (visit dependency.toSlot budget).eval s = ran
        intro first
        cases first with
        | throws e => exact .throws e
        | nothing reason used => exact .nothing _ used
        | finds b t used =>
            have named : ((eligible b t).revision.any fun r =>
                r.revisionDigest == dependency.revisionDigest) =
                  decide (t.revisionDigest = dependency.revisionDigest) := by
              rw [eligible, Option.any_some, Bool.eq_iff_iff, beq_iff_eq, decide_eq_true_iff]
            have standing : (eligible b t).eligible = true := rfl
            by_cases same : t.revisionDigest = dependency.revisionDigest
            · simp only [ok_bind, named, standing, same, decide_true, Bool.not_true,
                Bool.false_eq_true, if_false, if_true]
              exact ih used
            · simp only [ok_bind, named, standing, same, decide_false, Bool.not_true,
                Bool.not_false, Bool.false_eq_true, if_false, if_true]
              exact .nothing _ used

/-- **The walk searches for a derivation.** -/
theorem resolveInternalIn_sameEnd (order : DocumentRevision → List RevisionDependency)
    {fuel : Nat} (slot : Slot) (seen : List Slot) (depth budget : Nat)
    (left : depth + fuel = maxDependencyDepth + 1) :
    SameEnd (search (lookSlot order s config) maxDependencyNodes fuel seen budget slot)
      ((resolveInternalIn order config slot (seen.map slotKey) depth budget).eval s) := by
  induction fuel generalizing slot seen depth budget with
  | zero =>
      rw [resolveInternalIn, dif_pos (by omega)]
      split_ifs
      · exact .nothing _ budget
      · exact .nothing _ budget
  | succ fuel ih =>
      have member : (seen.map slotKey).contains (slotKey slot) = true ↔ slot ∈ seen := by
        simp only [List.contains_eq_mem, decide_eq_true_eq, List.mem_map]
        constructor
        · rintro ⟨other, mem, same⟩
          exact slotKey_inj same ▸ mem
        · exact fun mem => ⟨slot, mem, rfl⟩
      rw [resolveInternalIn, dif_neg (by omega), search]
      simp only [member]
      by_cases elsewhere : slot.channelId ≠ config.channelId
      · have look : lookSlot order s config slot = .ok none := if_pos elsewhere
        rw [if_pos elsewhere, look]
        split_ifs
        · exact .nothing _ budget
        · exact .nothing _ budget
        · exact .nothing _ budget
      · rw [if_neg elsewhere]
        split_ifs with repeated full
        · exact .nothing _ budget
        · exact .nothing _ (budget + 1)
        · rw [lookSlot, if_neg elsewhere, Query.eval_bind]
          cases (resolveAgreement config slot).eval s with
          | error e => exact .throws e
          | ok found =>
              cases found with
              | error reason => exact .nothing reason (budget + 1)
              | ok p =>
                  have visits := fun dependency budget =>
                    ih dependency (slot :: seen) (depth + 1) budget (by omega)
                  exact resolveDependencies_sameEnd visits p.1 p.2 (order p.2) (budget + 1)

/-! ## Derivations -/

/-- A slot stands for one agreement and one revision. -/
theorem Standing.unique {slot : Slot} {a b : AgreementRecord} {r t : DocumentRevision}
    (first : Standing s config slot a r) (second : Standing s config slot b t) :
    a = b ∧ r = t := by
  obtain ⟨id, named, value, stored, valid⟩ := first.pointer
  obtain ⟨id', named', value', stored', valid'⟩ := second.pointer
  cases named.symm.trans named'
  cases stored.symm.trans stored'
  cases valid.symm.trans valid'
  obtain ⟨content, kept, whole⟩ := first.revision
  obtain ⟨content', kept', whole'⟩ := second.revision
  cases kept.symm.trans kept'
  cases whole.symm.trans whole'
  exact ⟨rfl, rfl⟩

/-- A pointer that has no key names no agreement. -/
theorem Unnameable.not_standing {slot : Slot} (unnameable : Unnameable s slot)
    (a : AgreementRecord) (r : DocumentRevision) : ¬ Standing s config slot a r := by
  intro standing
  obtain ⟨units, unpaired, named⟩ := unnameable
  obtain ⟨id, named', -⟩ := standing.pointer
  cases named.symm.trans named'

/-- The policy of a standing agreement is of the channel of the config. -/
theorem Standing.channel {slot : Slot} {a : AgreementRecord} {r : DocumentRevision}
    (valid : config.Valid) (standing : Standing s config slot a r) :
    slot.channelId = config.channelId := by
  obtain ⟨p, inside, -, -, same⟩ := standing.policy
  rw [← same]
  exact (valid.policies p inside).channel

open Classical in
/-- The digest of the revision that a slot stands for, and what it requires. -/
noncomputable def standingGraph (order : DocumentRevision → List RevisionDependency) (s : Store)
    (config : DomainConfig) : Derivation.Graph Slot Digest := fun slot =>
  if h : ∃ p : AgreementRecord × DocumentRevision, Standing s config slot p.1 p.2 then
    some (h.choose.2.revisionDigest, requiredEdges (order h.choose.2))
  else none

/-- There is a derivation of the slot with its dependencies in the given order, no slot twice
on a path, no path longer than eight edges, with at most 256 nodes. -/
def DerivableIn (order : DocumentRevision → List RevisionDependency) (s : Store)
    (config : DomainConfig) (slot : Slot) : Prop :=
  ∃ t d, t.root = slot ∧ Derives (standingGraph order s config) t d ∧ Avoids [] t ∧
    t.height ≤ maxDependencyDepth ∧ t.size ≤ maxDependencyNodes

def Derivable (s : Store) (config : DomainConfig) (slot : Slot) : Prop :=
  DerivableIn listed s config slot

section Graph

variable {order : DocumentRevision → List RevisionDependency} {slot : Slot}

theorem standingGraph_eq {d : Digest} {edges : List (Slot × Digest)} :
    standingGraph order s config slot = some (d, edges) ↔ ∃ a r, Standing s config slot a r ∧
      r.revisionDigest = d ∧ requiredEdges (order r) = edges := by
  unfold standingGraph
  split_ifs with h
  · simp only [Option.some.injEq, Prod.mk.injEq]
    constructor
    · rintro ⟨digest, same⟩
      exact ⟨_, _, h.choose_spec, digest, same⟩
    · rintro ⟨a, r, standing, digest, same⟩
      obtain ⟨-, rfl⟩ := standing.unique h.choose_spec
      exact ⟨digest, same⟩
  · refine iff_of_false (by simp) ?_
    rintro ⟨a, r, standing, -⟩
    exact h ⟨(a, r), standing⟩

theorem standingGraph_none (nothing : ¬ ∃ a r, Standing s config slot a r) :
    standingGraph order s config slot = none := by
  rw [standingGraph, dif_neg]
  rintro ⟨p, standing⟩
  exact nothing ⟨p.1, p.2, standing⟩

open Classical in
/-- What the store says of a slot: its pointer has no key, or it stands for something, or not. -/
noncomputable def standingLook (order : DocumentRevision → List RevisionDependency) (s : Store)
    (config : DomainConfig) (slot : Slot) : Except Thrown (Option (Digest × List (Slot × Digest))) :=
  if slot.channelId = config.channelId ∧ Unnameable s slot then .error .uriError
  else .ok (standingGraph order s config slot)

theorem standingLook_error {e : Thrown} (fails : standingLook order s config slot = .error e) :
    e = .uriError := by
  rw [standingLook] at fails
  split_ifs at fails
  exact (Except.error.inj fails).symm

theorem graphOf_standingLook :
    graphOf (standingLook order s config) = standingGraph order s config := by
  funext slot
  rw [graphOf, standingLook]
  split_ifs with h
  · rw [standingGraph_none fun ⟨a, r, standing⟩ => h.2.not_standing a r standing]
    rfl
  · rfl

section Look

variable (configured : present (s keyFor.config) = some configValue)
  (validConfig : validateConfig (some configValue) = .ok config)

include configured validConfig

theorem lookSlot_eq : lookSlot order s config = standingLook order s config := by
  have fits := validateConfig_valid _ _ validConfig
  funext slot
  rw [lookSlot, standingLook]
  by_cases inside : slot.channelId = config.channelId
  · rw [if_neg (not_not_intro inside)]
    rcases resolveAgreement_cases configured validConfig slot with
      ⟨a, r, run, standing⟩ | ⟨reason, run, nameable, nothing⟩ | ⟨run, unnameable⟩
    · rw [run, if_neg fun h => h.2.not_standing a r standing,
        standingGraph_eq.mpr ⟨a, r, standing, rfl, rfl⟩]
      rfl
    · rw [run, if_neg fun h => nameable h.2, standingGraph_none nothing]
      rfl
    · rw [run, if_pos ⟨inside, unnameable⟩]
      rfl
  · rw [if_pos inside, if_neg fun h => inside h.1,
      standingGraph_none fun ⟨a, r, standing⟩ => inside (standing.channel fits)]

theorem search_sameEnd (order : DocumentRevision → List RevisionDependency) (slot : Slot) :
    SameEnd (search (standingLook order s config) maxDependencyNodes (maxDependencyDepth + 1) [] 0
      slot) ((resolveInternalIn order config slot [] 0 0).eval s) := by
  rw [← lookSlot_eq configured validConfig]
  exact resolveInternalIn_sameEnd order slot [] 0 0 (Nat.zero_add _)

/-- What the walk finds is a derivation. -/
theorem resolveInternalIn_eligible_iff :
    (∃ result, (resolveInternalIn order config slot [] 0 0).eval s = .ok result ∧
      result.1.eligible = true) ↔ DerivableIn order s config slot := by
  have ends := search_sameEnd configured validConfig order slot
  rw [ends.eligible_iff]
  simp only [search_some_iff, graphOf_standingLook, Nat.lt_succ_iff, Nat.zero_add]
  constructor
  · rintro ⟨d, used, t, root, derives, avoids, low, rfl, small⟩
    exact ⟨t, d, root, derives, avoids, low, small⟩
  · rintro ⟨t, d, root, derives, avoids, low, small⟩
    exact ⟨d, t.size, t, root, derives, avoids, low, rfl, small⟩

end Look

/-- The order of the dependencies does not matter. -/
theorem derivableIn_iff (reorders : ∀ r, (order r).Perm (listed r)) :
    DerivableIn order s config slot ↔ Derivable s config slot := by
  have required : ∀ r, (requiredEdges (order r)).Perm (requiredEdges (listed r)) := fun r =>
    ((reorders r).filter _).map _
  constructor
  · rintro ⟨t, d, root, derives, avoids, low, small⟩
    obtain ⟨u, root', derives', avoids', height, size⟩ := derives.reorder avoids
      fun n d edges found => by
        obtain ⟨a, r, standing, digest, rfl⟩ := standingGraph_eq.mp found
        exact ⟨_, standingGraph_eq.mpr ⟨a, r, standing, digest, rfl⟩, required r⟩
    exact ⟨u, d, root'.trans root, derives', avoids', height ▸ low, size ▸ small⟩
  · rintro ⟨t, d, root, derives, avoids, low, small⟩
    obtain ⟨u, root', derives', avoids', height, size⟩ := derives.reorder avoids
      fun n d edges found => by
        obtain ⟨a, r, standing, digest, rfl⟩ := standingGraph_eq.mp found
        exact ⟨_, standingGraph_eq.mpr ⟨a, r, standing, digest, rfl⟩, (required r).symm⟩
    exact ⟨u, d, root'.trans root, derives', avoids', height ▸ low, size ▸ small⟩

end Graph

/-! ## Resolution -/

/-- Resolution of the slot returns, and calls it eligible exactly when it is derivable, in
whatever order the dependencies are visited. -/
structure ResolvesAsDerived (s : Store) (config : DomainConfig) (slot : Slot) : Prop where
  settles : ∃ result, (resolve slot).eval s = .ok result ∧
    (result.eligible = true ↔ Derivable s config slot)
  anyOrder : ∀ order : DocumentRevision → List RevisionDependency,
    (∀ r, (order r).Perm r.payload.dependencies) →
      ((∃ result, (resolveInternalIn order config slot [] 0 0).eval s = .ok result ∧
        result.1.eligible = true) ↔ Derivable s config slot)

/-- The walk comes to a slot whose pointer has no key, before anything else stops it. -/
def ComesToUnnameable (s : Store) (config : DomainConfig) (slot : Slot) : Prop :=
  Blocked (standingLook listed s config) maxDependencyNodes .uriError (maxDependencyDepth + 1) []
    0 slot

theorem resolve_eval {slot : Slot} (configured : present (s keyFor.config) = some configValue)
    (validConfig : validateConfig (some configValue) = .ok config)
    (serving : config.servingEnabled = true) :
    (resolve slot).eval s =
      Prod.fst <$> (resolveInternalIn listed config slot [] 0 0).eval s := by
  simp only [resolve, resolveAt, Query.eval_map, Query.eval_bind, eval_getRecord, ok_bind,
    configured, validConfig, serving, Bool.not_true, Bool.false_eq_true, if_false,
    resolveInternalIn_listed]

section Resolves

variable {slot : Slot} (configured : present (s keyFor.config) = some configValue)
  (validConfig : validateConfig (some configValue) = .ok config)
  (serving : config.servingEnabled = true)

include configured validConfig serving

/-- Resolution fails where the walk comes to a pointer without a key, and nowhere else. -/
theorem resolve_error_iff {e : Thrown} :
    (resolve slot).eval s = .error e ↔ e = .uriError ∧ ComesToUnnameable s config slot := by
  have ends := search_sameEnd configured validConfig listed slot
  have throws : (resolve slot).eval s = .error e ↔
      (resolveInternalIn listed config slot [] 0 0).eval s = .error e := by
    rw [resolve_eval configured validConfig serving]
    cases (resolveInternalIn listed config slot [] 0 0).eval s with
    | error e' => simp
    | ok result => simp
  rw [throws, ends.error_iff, search_error_iff]
  constructor
  · intro blocked
    obtain ⟨other, fails⟩ := blocked.fails
    obtain rfl := standingLook_error fails
    exact ⟨rfl, blocked⟩
  · rintro ⟨rfl, blocked⟩
    exact blocked

theorem resolve_eligible_iff {result : ResolveResult}
    (returned : (resolve slot).eval s = .ok result) :
    result.eligible = true ↔ Derivable s config slot := by
  rw [Derivable, ← resolveInternalIn_eligible_iff configured validConfig]
  rw [resolve_eval configured validConfig serving] at returned
  cases found : (resolveInternalIn listed config slot [] 0 0).eval s with
  | error e =>
      rw [found] at returned
      cases returned
  | ok p =>
      rw [found] at returned
      obtain rfl : p.1 = result := Except.ok.inj returned
      constructor
      · exact fun eligible => ⟨p, rfl, eligible⟩
      · rintro ⟨p', same, eligible⟩
        obtain rfl := Except.ok.inj same
        exact eligible

/-- **Resolution calls eligible what is derivable** on every store, unless it comes to a
pointer whose agreement has no key: there it throws. -/
theorem resolve_derivable_iff :
    ResolvesAsDerived s config slot ↔ ¬ ComesToUnnameable s config slot := by
  have throws := @resolve_error_iff _ _ _ _ slot configured validConfig serving .uriError
  constructor
  · rintro ⟨⟨result, returned, -⟩, -⟩ comes
    rw [throws.mpr ⟨rfl, comes⟩] at returned
    cases returned
  · intro free
    refine ⟨?_, fun order reorders => ?_⟩
    · cases returned : (resolve slot).eval s with
      | error e =>
          exact absurd ((resolve_error_iff configured validConfig serving).mp returned).2 free
      | ok result =>
          exact ⟨result, rfl, resolve_eligible_iff configured validConfig serving returned⟩
    · rw [resolveInternalIn_eligible_iff configured validConfig]
      exact derivableIn_iff reorders

end Resolves

end Eligibility

/-! ## A pointer without a key -/

namespace Demo

@[reducible] local instance eligibilitySha256 : Sha256 := sha256

theorem surrogate_invalid : validUnicode [0xd800] = false := by decide

/-- Only the config, and a pointer that is half of a surrogate pair. -/
def brokenStore : Store := fun key =>
  if key = keyFor.config then some config.toJson
  else if key = keyFor.activeSlot (slot (name "base" base_isId)) then
    some (.str (.illFormed [0xd800] surrogate_invalid))
  else none

theorem brokenStore_config : present (brokenStore keyFor.config) = some config.toJson := by
  rw [brokenStore, if_pos rfl]
  rfl

theorem brokenStore_unnameable : Unnameable brokenStore (slot (name "base")) := by
  have other : keyFor.activeSlot (slot (name "base")) ≠ keyFor.config := by
    simp [keyFor.activeSlot, keyFor.config]
  refine ⟨[0xd800], by decide, ?_⟩
  rw [brokenStore, if_neg other, if_pos rfl]
  rfl

theorem brokenStore_comes : ComesToUnnameable brokenStore config (slot (name "base")) :=
  .here (List.not_mem_nil) (by decide) (if_pos ⟨rfl, brokenStore_unnameable⟩)

/-- Resolution throws at the broken pointer. -/
theorem resolve_not_derivable : ¬ ∀ (s : Store) (config : DomainConfig) (configValue : Value)
    (slot : Slot), present (s keyFor.config) = some configValue →
      validateConfig (some configValue) = .ok config → config.servingEnabled = true →
      ResolvesAsDerived s config slot := by
  intro always
  have valid := validateConfig_json config_valid
  obtain ⟨⟨result, returned, -⟩, -⟩ := always brokenStore config _ (slot (name "base"))
    brokenStore_config valid rfl
  rw [(resolve_error_iff brokenStore_config valid rfl).mpr ⟨rfl, brokenStore_comes⟩] at returned
  cases returned

theorem brokenStore_top : readPointer (present (brokenStore
    (keyFor.activeSlot (slot (name "top"))))) = .none := by
  have config : keyFor.activeSlot (slot (name "top")) ≠ keyFor.config := by
    simp [keyFor.activeSlot, keyFor.config]
  have base : keyFor.activeSlot (slot (name "top")) ≠ keyFor.activeSlot (slot (name "base")) := by
    simp [keyFor.activeSlot]
    decide
  rw [brokenStore, if_neg config, if_neg base]
  rfl

/-- No walk from another slot comes to the broken pointer. -/
theorem resolve_derivable_top : ResolvesAsDerived brokenStore config (slot (name "top")) := by
  refine (resolve_derivable_iff brokenStore_config (validateConfig_json config_valid) rfl).mpr ?_
  have nameable : ¬ Unnameable brokenStore (slot (name "top")) := by
    rintro ⟨units, unpaired, named⟩
    rw [brokenStore_top] at named
    cases named
  intro comes
  cases comes with
  | here _ _ fails =>
      rw [standingLook, if_neg fun h => nameable h.2] at fails
      cases fails
  | under _ found =>
      rw [standingLook, if_neg fun h => nameable h.2, Except.ok.injEq, standingGraph_eq] at found
      obtain ⟨a, r, standing, -⟩ := found
      obtain ⟨id, named, -⟩ := standing.pointer
      rw [brokenStore_top] at named
      cases named

end Demo

end Knowledger
