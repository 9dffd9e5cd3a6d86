import Knowledger.Validation
import Knowledger.Lib.Program

/-!
# Authoritative resolution

`resolveAt` reads the committed state and says which agreement and revision a slot stands
for, following the dependencies that must be active themselves.  The walk keeps the slots
of its path, its depth, and one count of visited nodes that all branches share.
-/

namespace Knowledger

open Js Txn

/-! ## Reading state -/

/-- A committed state: the value stored under each key. -/
abbrev Store := String → Option Value

/-- A computation that reads the state. -/
abbrev Read (α : Type) := Query String Value Thrown α

/-- What a check throws, as a port sees it. -/
def checked {α : Type} (x : Except DomainError α) : Except Thrown α := x.mapError .domain

instance : MonadLift (Except DomainError) (Query String Value Thrown) where
  monadLift x := Query.ofExcept (checked x)

/-- `value === undefined || value === null` is a missing record. -/
def present : Option Value → Option Value
  | some .null => none
  | o => o

def getRecord (key : String) : Read (Option Value) := do
  return present (← Query.read key)

/-! ## Results -/

structure ResolveResult where
  eligible : Bool
  agreement : Option AgreementRecord
  revision : Option DocumentRevision
  reason : Option String

def ineligible (reason : String) : ResolveResult := ⟨false, none, none, some reason⟩

def eligible (agreement : AgreementRecord) (revision : DocumentRevision) : ResolveResult :=
  ⟨true, some agreement, some revision, none⟩

/-! ## Approvals -/

def corruptApprovalState {α : Type} (message : String) : Except DomainError α :=
  fail "CORRUPT_STATE" message corruptState

/-- `error instanceof DomainError && error.code === "CORRUPT_STATE"` -/
def isCorruptState : Thrown → Bool
  | .domain e => e.code == "CORRUPT_STATE"
  | _ => false

def findPolicy (config : DomainConfig) (policyId : Id) (policyVersion : SafeInt 1) :
    Option AgreementPolicy :=
  config.policies.find? fun candidate =>
    candidate.policyId == policyId && candidate.policyVersion == policyVersion

def findRepresentative (policy : AgreementPolicy) (role : Id) : Option RoleRepresentative :=
  policy.roleRepresentatives.find? fun candidate => candidate.domainRole == role

/-- The decision is bound to exactly the target of the agreement. -/
def boundToAgreement (d : ApprovalDecision) (a : AgreementRecord) : Bool :=
  d.revisionDigest == a.revisionDigest && d.proposalId == a.proposalId &&
    sameSlot d.toSlot a.toSlot && d.policyId == a.policyId &&
    d.policyVersion == a.policyVersion && d.membershipEpoch == a.membershipEpoch &&
    d.roleBindingVersion == a.roleBindingVersion

/-- The first candidate, not selected before, that the representative decided for the
role. -/
def findApproval (role : Id) (representative : RoleRepresentative) (selected : List Id) :
    List Id → Read (Option (Id × ApprovalDecision))
  | [] => pure none
  | candidateId :: rest =>
      if selected.contains candidateId then findApproval role representative selected rest
      else do
        let some value ← getRecord (keyFor.decision candidateId.1)
          | corruptApprovalState "agreement approval manifest points to a missing decision"
        match validateDecision value with
        | .error _ =>
            corruptApprovalState "agreement approval manifest points to a malformed decision"
        | .ok decision =>
            if decision.decision ≠ .approve then
              corruptApprovalState "agreement approval manifest points to a non-approval decision"
            else if decision.actorDomainRole == role &&
                decision.actorOrgId == representative.actorOrgId &&
                decision.actorId == representative.actorId then
              return some (candidateId, decision)
            else findApproval role representative selected rest

/-- One approval for each role, with the candidates selected so far. -/
def collectApprovals (agreement : AgreementRecord) (policy : AgreementPolicy) :
    List Id → List Id → Read (List ApprovalDecision)
  | [], selected =>
      if selected.length ≠ agreement.approvalDecisionIds.length then
        corruptApprovalState
          "agreement approval manifest contains an approval for an unrequired representative"
      else pure []
  | role :: roles, selected => do
      let some representative := findRepresentative policy role
        | corruptApprovalState ("agreement policy has no representative for " ++ role.1)
      let some (candidateId, found) ←
          findApproval role representative selected agreement.approvalDecisionIds
        | corruptApprovalState
            ("agreement approval manifest has no approval from required role " ++ role.1)
      if !boundToAgreement found agreement then
        corruptApprovalState
          ("agreement approval for " ++ role.1 ++ " is bound to a different immutable target")
      else
        let decisions ← collectApprovals agreement policy roles (candidateId :: selected)
        return found :: decisions

/-- The agreement and the config an approval manifest is checked against. -/
def readManifest (agreementInput : AgreementRecord) : Read (AgreementRecord × DomainConfig) :=
  tryCatch
    (do
      let agreement ← (validateAgreement agreementInput.toJson : Except _ _)
      let some configValue ← getRecord keyFor.config
        | corruptApprovalState "agreement approval validation has no channel config"
      let config ← (validateConfig configValue : Except _ _)
      return (agreement, config))
    fun error =>
      if isCorruptState error then throw error
      else corruptApprovalState "agreement approval manifest or channel config is malformed"

/-- A committed agreement still cites exactly one valid approval from every required
representative. -/
def validateAgreementApprovals (agreementInput : AgreementRecord) :
    Read (List ApprovalDecision) := do
  let (agreement, config) ← readManifest agreementInput
  if agreement.membershipEpoch ≠ config.membershipEpoch ∨
      agreement.roleBindingVersion ≠ config.roleBindingVersion then
    corruptApprovalState "agreement approval manifest uses a stale entitlement epoch"
  else
    match findPolicy config agreement.policyId agreement.policyVersion with
    | none =>
        corruptApprovalState
          "agreement approval manifest does not match its immutable policy and slot"
    | some policy =>
        if !sameSlot policy.toSlot agreement.toSlot then
          corruptApprovalState
            "agreement approval manifest does not match its immutable policy and slot"
        else if agreement.approvalDecisionIds.length ≠ policy.requiredDomainRoles.length then
          corruptApprovalState
            "agreement approval manifest does not contain exactly one decision per required role"
        else collectApprovals agreement policy policy.requiredDomainRoles []

/-! ## The walk -/

/-- What an active slot record points to. -/
inductive Pointer
  | none
  | corrupt
  | agreement (id : Str)

def readPointer : Option Value → Pointer
  | Option.none => .none
  | some (.str id) => .agreement id
  | some (.obj fields) =>
      match Fields.get fields "agreement_id" with
      | some .null => .none
      | some (.str id) => .agreement id
      | _ => .corrupt
  | some _ => .corrupt

/-- The active agreement of a slot with its revision, or the reason there is none. -/
def resolveAgreement [Sha256] (config : DomainConfig) (slot : Slot) :
    Read (Except String (AgreementRecord × DocumentRevision)) := do
  match readPointer (← getRecord (keyFor.activeSlot slot)) with
  | .none => return .error "NO_ACTIVE_AGREEMENT"
  | .corrupt => return .error "CORRUPT_ACTIVE_POINTER"
  | .agreement agreementId =>
      let key ← keyOfString .agreement agreementId
      let some agreementValue ← getRecord key | return .error "MISSING_AGREEMENT"
      match validateAgreement agreementValue with
      | .error _ => return .error "CORRUPT_AGREEMENT"
      | .ok agreement =>
          if agreement.status ≠ .active then
            return .error ("AGREEMENT_" ++ agreement.status.text.toUpper)
          else if !sameSlot agreement.toSlot slot then return .error "AGREEMENT_SLOT_MISMATCH"
          else if agreement.membershipEpoch ≠ config.membershipEpoch ∨
              agreement.roleBindingVersion ≠ config.roleBindingVersion then
            return .error "STALE_CONFIGURATION"
          else if !(findPolicy config agreement.policyId agreement.policyVersion).any
              fun policy => sameSlot policy.toSlot agreement.toSlot then
            return .error "STALE_POLICY"
          else
            let approved ← tryCatch ((fun _ => true) <$> validateAgreementApprovals agreement)
              fun error => if isCorruptState error then pure false else throw error
            if !approved then return .error "CORRUPT_APPROVALS"
            else
              let some revisionValue ← getRecord (keyFor.revision agreement.revisionDigest.1)
                | return .error "MISSING_REVISION"
              match validateRevision revisionValue with
              | .error _ => return .error "CORRUPT_REVISION"
              | .ok revision =>
                  if revision.revisionDigest ≠ agreement.revisionDigest ∨
                      !sameSlot revision.payload.toSlot slot then
                    return .error "REVISION_SLOT_MISMATCH"
                  else return .ok (agreement, revision)

/-- Resolve the dependencies that must be active, in the order they are listed. -/
def resolveDependencies (visit : Slot → Nat → Read (ResolveResult × Nat))
    (agreement : AgreementRecord) (revision : DocumentRevision) :
    List RevisionDependency → Nat → Read (ResolveResult × Nat)
  | [], budget => pure (eligible agreement revision, budget)
  | dependency :: rest, budget =>
      if dependency.enforcement ≠ .requiresActive then
        resolveDependencies visit agreement revision rest budget
      else do
        let (result, budget) ← visit dependency.toSlot budget
        if !result.eligible then
          return (ineligible ("DEPENDENCY_INELIGIBLE:" ++ result.reason.getD "UNKNOWN"), budget)
        else if !result.revision.any fun r => r.revisionDigest == dependency.revisionDigest then
          return (ineligible "DEPENDENCY_REVISION_MISMATCH", budget)
        else resolveDependencies visit agreement revision rest budget

def maxDependencyDepth : Nat := 8
def maxDependencyNodes : Nat := 256

/-- The result, and the count of nodes visited so far. -/
def resolveInternal [Sha256] (config : DomainConfig) (slot : Slot) (seen : List String)
    (depth budget : Nat) : Read (ResolveResult × Nat) :=
  if slot.channelId ≠ config.channelId then pure (ineligible "SCOPE_MISMATCH", budget)
  else if _deep : depth > maxDependencyDepth then pure (ineligible "DEPENDENCY_DEPTH", budget)
  else if seen.contains (slotKey slot) then pure (ineligible "DEPENDENCY_CYCLE", budget)
  else if budget + 1 > maxDependencyNodes then
    pure (ineligible "DEPENDENCY_NODE_LIMIT", budget + 1)
  else do
    match ← resolveAgreement config slot with
    | .error reason => return (ineligible reason, budget + 1)
    | .ok (agreement, revision) =>
        resolveDependencies
          (fun dependency budget =>
            resolveInternal config dependency (slotKey slot :: seen) (depth + 1) budget)
          agreement revision revision.payload.dependencies (budget + 1)
termination_by maxDependencyDepth + 1 - depth

/-- Resolve only from committed authoritative state. -/
def resolveAt [Sha256] (slot : Slot) (seen : List String) (depth budget : Nat) :
    Read (ResolveResult × Nat) := do
  let some configValue ← getRecord keyFor.config
    | return (ineligible "CONFIG_NOT_BOOTSTRAPPED", budget)
  match validateConfig configValue with
  | .error _ => return (ineligible "CORRUPT_CONFIG", budget)
  | .ok config =>
      if !config.servingEnabled then return (ineligible "SERVING_FROZEN", budget)
      else resolveInternal config slot seen depth budget

/-- `resolveAt` with its default arguments. -/
def resolve [Sha256] (slot : Slot) : Read ResolveResult := Prod.fst <$> resolveAt slot [] 0 0

end Knowledger
