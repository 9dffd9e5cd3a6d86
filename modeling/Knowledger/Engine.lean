import Knowledger.Resolve

/-!
# Commands

The state transitions of the domain: `bootstrap`, and `execute` with its seven commands.
Each is a program over the state keys; the adapter runs it on a snapshot, keeps its writes
apart, and drops them when it fails.
-/

namespace Knowledger

open Js Txn

/-- A computation that reads and writes the state. -/
abbrev Tx (α : Type) := Program String Value Thrown α

def put (key : String) (value : Value) : Tx Unit := Program.write key value

/-- `ctx.put(key, cloneCanonical(value))` -/
def putClone (key : String) (value : Value) : Tx Unit := do
  let value ← cloneCanonical value
  put key value

/-- `fail` where a record is missing. -/
def reject {α : Type} (code message : String) (options : DomainErrorOptions) : Read α :=
  Query.ofExcept (checked (fail code message options))

/-- Read a record that must exist. -/
def requireRecord (key code message : String) (options : DomainErrorOptions) : Read Value := do
  let some value ← getRecord key | reject code message options
  return value

/-! ## Configuration and identities -/

def readConfig : Read DomainConfig := do
  let value ← requireRecord keyFor.config "NOT_BOOTSTRAPPED"
    "channel configuration has not been bootstrapped" { status := 503, retryable := true }
  validateConfig value

def configuredIdentity (config : DomainConfig) (actor : Actor) :
    Except DomainError ConfigIdentity :=
  expect (config.identities.find? fun candidate =>
      candidate.orgId == actor.orgId && candidate.actorId == actor.actorId &&
        candidate.kind == actor.kind)
    "FORBIDDEN" "actor is not a member of the configured application entitlement" forbidden

def requireHuman (ctx : Context) (config : DomainConfig) : Except DomainError ConfigIdentity := do
  ensure (ctx.actor.kind == .human) "FORBIDDEN" "this command requires a human actor" forbidden
  configuredIdentity config ctx.actor

def policyFor (config : DomainConfig) (policyId : Id) (policyVersion : SafeInt 1) :
    Except DomainError AgreementPolicy :=
  expect (findPolicy config policyId policyVersion) "POLICY_NOT_FOUND"
    "policy is not present in the immutable channel config" notFound

def assertPolicyMatchesRevision (policy : AgreementPolicy) (revision : DocumentRevision) :
    Except DomainError Unit :=
  ensure (sameSlot policy.toSlot revision.payload.toSlot) "SCOPE_MISMATCH"
    "policy and revision must use the same full slot" conflict

def assertConfigVersionEqual (left right : ConfigVersion) (label : String) :
    Except DomainError Unit := do
  let left ← canonicalize left.toJson
  let right ← canonicalize right.toJson
  ensure (left == right) "STALE_CONFIGURATION"
    (label ++ " does not match the current immutable config") conflict

/-! ## Publishing -/

def readRevisionById [Sha256] (revisionId : Id) : Read (Option DocumentRevision) := do
  let some pointerValue ← getRecord (keyFor.revisionId revisionId.1) | return none
  match isRecord pointerValue with
  | some fields =>
      match fields.length, Fields.get fields "revision_digest" with
      | 1, some (.str digest) => do
          assertKeys fields ["revision_digest"] [] "revision id pointer"
          let digest ← assertDigest (some (.str digest)) "revision id pointer.revision_digest"
          let revisionValue ← requireRecord (keyFor.revision digest.1) "CORRUPT_STATE"
            "revision id pointer targets a missing revision" corruptState
          return some (← validateRevision revisionValue)
      | _, _ => return some (← validateRevision pointerValue)
  | none => return some (← validateRevision pointerValue)

def dependencyDetails (dependency : RevisionDependency) : List (String × Option Value) :=
  [("dependency_digest", jsonString dependency.revisionDigest.1)]

/-- Walk the targets of the dependencies in order, with the revisions seen so far. -/
def walkTargets [Sha256] (visit : DocumentRevision → List Digest → Read (List Digest)) :
    List RevisionDependency → List Digest → Read (List Digest)
  | [], seen => pure seen
  | dependency :: rest, seen => do
      let targetValue ← requireRecord (keyFor.revision dependency.revisionDigest.1)
        "DEPENDENCY_NOT_FOUND"
        "every dependency revision must already be published"
        { status := 409, details := some (record (dependencyDetails dependency)) }
      let target ← validateRevision targetValue
      ensure (target.revisionDigest == dependency.revisionDigest &&
          sameSlot target.payload.toSlot dependency.toSlot) "DEPENDENCY_SCOPE_MISMATCH"
        "dependency reference must bind the target revision's full slot"
        { status := 409, details := some (record (dependencyDetails dependency)) }
      let seen ← visit target seen
      walkTargets visit rest seen

def walkPublished [Sha256] (current : DocumentRevision) (depth : Nat) (path seen : List Digest) :
    Read (List Digest) :=
  if _deep : depth > maxDependencyDepth then
    reject "DEPENDENCY_LIMIT" "dependency graph exceeds depth eight" conflict
  else if path.contains current.revisionDigest then
    reject "DEPENDENCY_CYCLE" "dependency graph contains a cycle" conflict
  else if seen.contains current.revisionDigest then pure seen
  else if seen.length + 1 > maxDependencyNodes then
    reject "DEPENDENCY_LIMIT" "dependency graph exceeds 256 distinct revisions" conflict
  else
    walkTargets
      (fun target seen =>
        walkPublished target (depth + 1) (current.revisionDigest :: path) seen)
      current.payload.dependencies (current.revisionDigest :: seen)
termination_by maxDependencyDepth + 1 - depth

def validatePublishedDependencyGraph [Sha256] (root : DocumentRevision) : Read Unit := do
  let _ ← walkPublished root 0 [] []
  return ()

/-- Every parent is published in the slot of the revision. -/
def checkParents [Sha256] (revision : DocumentRevision) : List Digest → Read Unit
  | [] => pure ()
  | parentDigest :: rest => do
      let parentValue ← requireRecord (keyFor.revision parentDigest.1) "PARENT_NOT_FOUND"
        "every parent revision must already be published"
        { status := 409, details := some (record [("parent_digest", jsonString parentDigest.1)]) }
      let parent ← validateRevision parentValue
      ensure (sameSlot parent.payload.toSlot revision.payload.toSlot) "SCOPE_MISMATCH"
        "revision parents must use the same full slot" conflict
      checkParents revision rest

def publishResult (status : String) (revision : DocumentRevision) : Value :=
  record [("status", jsonString status), ("revision_digest", jsonString revision.revisionDigest.1),
    ("slot", jsonString (slotKey revision.payload.toSlot))]

/-- Store a revision that passed the checks, unless it is stored already. -/
def publishRevision [Sha256] (revision : DocumentRevision) : Tx Value := do
  match ← getRecord (keyFor.revision revision.revisionDigest.1) with
  | some existing =>
      let existingRevision ← validateRevision existing
      ensure (sameJson existingRevision.toJson revision.toJson) "IMMUTABLE_CONFLICT"
        "revision digest already stores different content" conflict
      return publishResult "already_published" revision
  | none =>
      match ← readRevisionById revision.payload.revisionId with
      | some existingRevision =>
          ensure (existingRevision.revisionDigest == revision.revisionDigest) "IMMUTABLE_CONFLICT"
            "revision_id cannot be reused for another digest" conflict
          return publishResult "already_published" revision
      | none =>
          checkParents revision revision.payload.parents
          validatePublishedDependencyGraph revision
          putClone (keyFor.revision revision.revisionDigest.1) revision.toJson
          put (keyFor.revisionId revision.payload.revisionId.1)
            (record [("revision_digest", jsonString revision.revisionDigest.1)])
          return publishResult "published" revision

def executePublish [Sha256] (ctx : Context) (config : DomainConfig) (input : Fields) :
    Tx Value := do
  let identity ← configuredIdentity config ctx.actor
  let publication ← validatePublication input
  let revision := publication.revision
  ensure (ctx.channelId == config.channelId && revision.payload.channelId == config.channelId)
    "SCOPE_MISMATCH" "revision channel does not match transaction channel" conflict
  ensure (identity.publishContexts.contains .all ||
      identity.publishContexts.contains (.context revision.payload.contextId)) "FORBIDDEN"
    "actor cannot publish in this bounded context" forbidden
  ensure config.servingEnabled "SERVING_FROZEN" "publication is frozen while serving is disabled"
    conflict
  assertConfigVersionEqual publication.configVersion config.configVersion
    "publication.config_version"
  ensure (publication.membershipEpoch == config.membershipEpoch) "STALE_CONFIGURATION"
    "publication membership epoch is stale" conflict
  publishRevision revision

/-! ## Proposing -/

def executePropose [Sha256] (ctx : Context) (config : DomainConfig) (input : Fields) :
    Tx Value := do
  let identity ← configuredIdentity config ctx.actor
  assertKeys input ["proposal_id", "revision_digest", "policy_id", "policy_version"] []
    "propose input"
  let proposalId ← assertId (input.get "proposal_id") "proposal_id"
  let revisionDigest ← assertDigest (input.get "revision_digest") "revision_digest"
  let policyId ← assertId (input.get "policy_id") "policy_id"
  let policyVersion ← assertSafeInteger (input.get "policy_version") "policy_version" 1
  ensure identity.canPropose "FORBIDDEN" "actor is not allowed to create proposals" forbidden
  let revisionValue ← requireRecord (keyFor.revision revisionDigest.1) "REVISION_NOT_FOUND"
    "proposal revision is not published" notFound
  let revision ← validateRevision revisionValue
  let policy ← policyFor config policyId policyVersion
  assertPolicyMatchesRevision policy revision
  match ← getRecord (keyFor.proposal proposalId.1) with
  | some existingValue =>
      let existing ← validateProposal existingValue
      if existing.revisionDigest == revision.revisionDigest &&
          existing.policyId == policy.policyId &&
          existing.policyVersion == policy.policyVersion then
        reject "PROPOSAL_REPLAY" "proposal_id has already been used" conflict
      else reject "IMMUTABLE_CONFLICT" "proposal_id cannot be reused" conflict
  | none =>
      let proposal : AgreementProposalRecord :=
        { toSlot := revision.payload.toSlot
          proposalId := proposalId
          revisionDigest := revision.revisionDigest
          policyId := policy.policyId
          policyVersion := policy.policyVersion
          membershipEpoch := config.membershipEpoch
          roleBindingVersion := config.roleBindingVersion
          configVersion := config.configVersion
          status := .open
          createdBy := ctx.actor
          createdAt := ctx.timestamp
          reviewCounter := ⟨0, SafeInt.zero_valid⟩
          agreementId := none }
      putClone (keyFor.proposal proposal.proposalId.1) proposal.toJson
      put (keyFor.reviewCounter proposal.proposalId.1) (jsonNat 0)
      putClone (keyFor.policy policy.policyId.1 policy.policyVersion.1) policy.toJson
      return record [("status", jsonString "proposed"),
        ("proposal_id", jsonString proposal.proposalId.1),
        ("revision_digest", jsonString revision.revisionDigest.1),
        ("slot", jsonString (slotKey revision.payload.toSlot))]

/-! ## Deciding -/

def decisionLatestKey (d : ApprovalDecision) : String :=
  keyFor.latestDecision d.proposalId.1 d.policyVersion.1 d.actorDomainRole.1 d.actorOrgId.1
    d.actorId.1

def getLatestDecision (decision : ApprovalDecision) : Read (Option ApprovalDecision) := do
  let some latestValue ← getRecord (decisionLatestKey decision) | return none
  let latest ← assertRecord latestValue "latest decision reference"
  assertKeys latest ["decision_id"] [] "latest decision reference"
  let decisionId ← assertId (latest.get "decision_id") "latest decision reference.decision_id"
  let value ← requireRecord (keyFor.decision decisionId.1) "CORRUPT_STATE"
    "latest decision points to a missing decision" corruptState
  return some (← validateDecision value)

/-- `n + 1` where that is a safe integer. -/
def nextSafe (n : SafeInt 0) (message : String) : Except DomainError (SafeInt 0) :=
  if h : n.1 + 1 ≤ 9007199254740991 then .ok ⟨n.1 + 1, Nat.zero_le _, h⟩
  else fail "STATE_LIMIT" message conflict

def incrementEpoch : Tx (SafeInt 0) := do
  match ← getRecord keyFor.eligibilityEpoch with
  | none =>
      put keyFor.eligibilityEpoch (jsonNat 1)
      return ⟨1, by decide⟩
  | some existing =>
      let existing ← assertSafeInteger existing "eligibility_epoch" 0
      let next ← nextSafe existing "eligibility epoch exhausted"
      put keyFor.eligibilityEpoch (jsonNat next.1)
      return next

def readReviewCounter (proposal : AgreementProposalRecord) : Read (SafeInt 0) := do
  let some value ← getRecord (keyFor.reviewCounter proposal.proposalId.1)
    | return proposal.reviewCounter
  let value ← assertSafeInteger value "proposal.review_counter" 0
  ensure (value == proposal.reviewCounter) "CORRUPT_STATE"
    "proposal and review counter records disagree" corruptState
  return value

/-- The agreement the pointer of a slot names. -/
def readActiveAgreement (slot : Slot) (agreementId : Str) : Read AgreementRecord := do
  let key ← keyOfString .agreement agreementId
  let value ← requireRecord key "CORRUPT_STATE"
    "active slot points to a missing agreement" corruptState
  let agreement ← validateAgreement value
  ensure (sameSlot agreement.toSlot slot) "CORRUPT_STATE"
    "active agreement slot does not match active slot key" corruptState
  return agreement

def getActiveAgreement (slot : Slot) : Read (Option AgreementRecord) := do
  match ← getRecord (keyFor.activeSlot slot) with
  | none => return none
  | some (.str agreementId) => return some (← readActiveAgreement slot agreementId)
  | some pointer =>
      let pointer ← assertRecord pointer "active slot pointer"
      assertKeys pointer ["agreement_id"] [] "active slot pointer"
      if isNull (pointer.get "agreement_id") then return none
      else
        let agreementId ← assertId (pointer.get "agreement_id") "active slot pointer.agreement_id"
        return some (← readActiveAgreement slot agreementId.1)

def jsonOrNull (id : Option Id) : Value := id.elim .null jsonText

def pointTo (agreementId : Option Id) : Value :=
  record [("agreement_id", jsonOrNull agreementId)]

/-- The agreement after `actor` changed its status. -/
def AgreementRecord.withStatus (a : AgreementRecord) (status : AgreementStatus)
    (reason : Text 1000) (ctx : Context) : AgreementRecord :=
  { a with
    status := status
    statusReason := some reason
    statusChangedBy := some ctx.actor
    statusChangedAt := some ctx.timestamp }

def suspendActiveAgreement (ctx : Context) (slot : Slot) (reason : Text 1000)
    (expectedProposalId : Option Id) : Tx (Option AgreementRecord) := do
  match ← getActiveAgreement slot with
  | none => return none
  | some active =>
      if active.status ≠ .active then return none
      else if !expectedProposalId.all fun id => active.proposalId == id then return none
      else
        let suspended := active.withStatus .suspended reason ctx
        putClone (keyFor.agreement active.agreementId.1) suspended.toJson
        put (keyFor.activeSlot slot) (pointTo none)
        let _ ← incrementEpoch
        return some suspended

/-- Why a decision that is not an approval suspends. -/
def suspensionReason : ApprovalKind → Text 1000
  | .object => ⟨"required_representative_objected", by decide⟩
  | .abstain => ⟨"required_representative_abstained", by decide⟩
  | _ => ⟨"required_decision_retracted", by decide⟩

/-- The retracted decision is the actor's own, not a retraction, and the latest one. -/
def checkRetraction (decision : ApprovalDecision) (latest : Option ApprovalDecision) :
    Read Unit := do
  match decision.retractsDecisionId with
  | none => return ()
  | some targetId =>
      let targetValue ← requireRecord (keyFor.decision targetId.1) "RETRACT_TARGET_NOT_FOUND"
        "retract target does not exist" conflict
      let target ← validateDecision targetValue
      ensure (target.actorOrgId == decision.actorOrgId && target.actorId == decision.actorId &&
          target.proposalId == decision.proposalId &&
          target.actorDomainRole == decision.actorDomainRole) "FORBIDDEN"
        "retract target is not the actor's decision" forbidden
      ensure (target.decision ≠ .retract) "RETRACT_INVALID"
        "a retract cannot retract another retract" conflict
      ensure (latest.any fun l => l.decisionId == target.decisionId) "RETRACT_NOT_LATEST"
        "only the latest decision can be retracted" conflict

/-- The policy allows a decision of this kind. -/
def allowsDecision (policy : AgreementPolicy) (kind : ApprovalKind) : Bool :=
  policy.allowedDecisions.any fun allowed => allowed.1 == kind.text

/-- The decision binds the proposal, the revision, and the configuration in force. -/
def checkDecisionTarget (config : DomainConfig) (decision : ApprovalDecision)
    (proposal : AgreementProposalRecord) (revision : DocumentRevision) :
    Except DomainError Unit := do
  ensure (proposal.revisionDigest == decision.revisionDigest &&
      sameSlot proposal.toSlot decision.toSlot &&
      sameSlot revision.payload.toSlot decision.toSlot) "STALE_DECISION"
    "decision does not bind the exact proposal revision and slot" conflict
  ensure (proposal.policyId == decision.policyId &&
      proposal.policyVersion == decision.policyVersion &&
      proposal.membershipEpoch == decision.membershipEpoch &&
      proposal.roleBindingVersion == decision.roleBindingVersion) "STALE_DECISION"
    "decision policy or entitlement epoch is stale" conflict
  ensure (decision.channelId == config.channelId &&
      decision.membershipEpoch == config.membershipEpoch &&
      decision.roleBindingVersion == config.roleBindingVersion) "STALE_CONFIGURATION"
    "decision configuration is stale" conflict

/-- The actor is the representative the policy names for the role of the decision. -/
def checkDecisionActor (ctx : Context) (policy : AgreementPolicy) (decision : ApprovalDecision) :
    Except DomainError Unit := do
  ensure (allowsDecision policy decision.decision) "DECISION_NOT_ALLOWED"
    "policy does not permit this decision" conflict
  ensure ((findRepresentative policy decision.actorDomainRole).any fun representative =>
      representative.actorOrgId == ctx.actor.orgId && representative.actorId == ctx.actor.actorId)
    "FORBIDDEN" "actor is not the named representative for this role" forbidden
  ensure (decision.actorOrgId == ctx.actor.orgId && decision.actorId == ctx.actor.actorId)
    "FORBIDDEN" "decision actor fields must match the authenticated actor" forbidden

/-- Record the decision and count it on its proposal. -/
def recordDecision (decision : ApprovalDecision) (proposal : AgreementProposalRecord)
    (counter : SafeInt 0) : Tx Unit := do
  putClone (keyFor.decision decision.decisionId.1) decision.toJson
  put (decisionLatestKey decision) (record [("decision_id", jsonString decision.decisionId.1)])
  putClone (keyFor.proposal proposal.proposalId.1)
    ({ proposal with reviewCounter := counter } : AgreementProposalRecord).toJson
  put (keyFor.reviewCounter proposal.proposalId.1) (jsonNat counter.1)

def executeDecide [Sha256] (ctx : Context) (config : DomainConfig) (input : Fields) :
    Tx Value := do
  let _ ← requireHuman ctx config
  assertKeys input ["decision"] [] "decide input"
  let decision ← validateDecision (input.get "decision")
  let proposalValue ← requireRecord (keyFor.proposal decision.proposalId.1) "PROPOSAL_NOT_FOUND"
    "decision proposal does not exist" notFound
  let proposal ← validateProposal proposalValue
  let revisionValue ← requireRecord (keyFor.revision decision.revisionDigest.1)
    "REVISION_NOT_FOUND"
    "decision revision does not exist" notFound
  let revision ← validateRevision revisionValue
  checkDecisionTarget config decision proposal revision
  let policy ← policyFor config decision.policyId decision.policyVersion
  assertPolicyMatchesRevision policy revision
  checkDecisionActor ctx policy decision
  let existingDecision ← getRecord (keyFor.decision decision.decisionId.1)
  ensure existingDecision.isNone "IMMUTABLE_CONFLICT" "decision_id cannot be reused" conflict
  let latest ← getLatestDecision decision
  checkRetraction decision latest
  let currentCounter ← readReviewCounter proposal
  let nextCounter ← nextSafe currentCounter "proposal review counter exhausted"
  recordDecision decision proposal nextCounter
  let suspended ←
    if decision.decision ≠ .approve then
      suspendActiveAgreement ctx proposal.toSlot (suspensionReason decision.decision)
        decision.proposalId
    else pure none
  return record [("status", jsonString "recorded"),
    ("decision_id", jsonString decision.decisionId.1),
    ("proposal_id", jsonString decision.proposalId.1),
    ("suspended_agreement_id", suspended.map fun a => jsonString a.agreementId.1)]

/-! ## Activating -/

def dependencyFailure (dependency : RevisionDependency) (reason : Option String) :
    DomainErrorOptions :=
  { status := 409
    details := some (record (dependencyDetails dependency ++
      [("dependency_slot", some (jsonString (slotKey dependency.toSlot))),
        ("reason", reason.map jsonString)])) }

/-- The dependencies of a revision in `slot`, in order: each must resolve to exactly the
revision it names.  `traversed` counts the dependencies, `budget` the visited nodes. -/
def eligibleDependencies [Sha256] (slot : Slot) (seen : List String) (depth : Nat) :
    List RevisionDependency → Nat → Nat → Read Unit
  | [], _, _ => pure ()
  | dependency :: rest, traversed, budget =>
      if dependency.enforcement ≠ .requiresActive then
        eligibleDependencies slot seen depth rest traversed budget
      else do
        ensure (traversed + 1 ≤ maxDependencyNodes) "DEPENDENCY_LIMIT"
          "dependency graph exceeds 256 nodes" conflict
        ensure (!sameSlot dependency.toSlot slot) "DEPENDENCY_CYCLE"
          "revision cannot require its own acceptance slot" conflict
        let (resolved, budget) ← resolveAt dependency.toSlot seen (depth + 1) budget
        ensure (resolved.eligible &&
            resolved.revision.any fun r => r.revisionDigest == dependency.revisionDigest)
          "DEPENDENCY_INELIGIBLE"
          "a required active dependency is unavailable or has a different active revision"
          (dependencyFailure dependency resolved.reason)
        eligibleDependencies slot seen depth rest (traversed + 1) budget

def dependencyEligible [Sha256] (revision : DocumentRevision) (depth : Nat)
    (seen : List String) : Read Unit := do
  ensure (depth ≤ maxDependencyDepth) "DEPENDENCY_LIMIT" "dependency graph exceeds depth eight"
    conflict
  let currentSlot := slotKey revision.payload.toSlot
  ensure (!seen.contains currentSlot) "DEPENDENCY_CYCLE" "dependency graph contains a cycle"
    conflict
  eligibleDependencies revision.payload.toSlot (currentSlot :: seen) depth
    revision.payload.dependencies 0 0

/-- `String(value)` of a value that was never checked to be a string. -/
def coerceString : Value → Except Thrown Str
  | .null => .ok "null"
  | .bool b => .ok (if b then "true" else "false")
  | .num n => .ok (String.ofList n.text)
  | .str s => .ok s
  | .arr items => coerceItems items
  | .obj fields =>
      if (Fields.get fields "toString").isSome then
        .error (.error "Cannot convert object to primitive value")
      else .ok "[object Object]"
where
  coerceItems : List Value → Except Thrown Str
  | [] => .ok ""
  | .null :: [] => .ok ""
  | v :: [] => coerceString v
  | v :: rest => do
      let head ← match v with
        | .null => .ok (Str.wellFormed "")
        | v => coerceString v
      let tail ← coerceItems rest
      match head, tail with
      | .wellFormed h, .wellFormed t => return .wellFormed (h ++ "," ++ t)
      | .illFormed _ _, _ => return head
      | _, .illFormed _ _ => return tail

/-- The decision binds the proposal the agreement would be made of. -/
def boundToProposal (d : ApprovalDecision) (p : AgreementProposalRecord) : Bool :=
  d.revisionDigest == p.revisionDigest && d.proposalId == p.proposalId &&
    sameSlot d.toSlot p.toSlot && d.policyId == p.policyId &&
    d.policyVersion == p.policyVersion && d.membershipEpoch == p.membershipEpoch &&
    d.roleBindingVersion == p.roleBindingVersion

/-- The latest decision of the representative of a role, which must be an approval. -/
def latestApproval (proposal : AgreementProposalRecord) (role : Id)
    (representative : RoleRepresentative) (selected : List Id) : Read ApprovalDecision := do
  let latestValue ← requireRecord (keyFor.latestDecision proposal.proposalId.1
      proposal.policyVersion.1 role.1 representative.actorOrgId.1 representative.actorId.1)
    "APPROVAL_INCOMPLETE" ("required role " ++ role.1 ++ " has no latest decision") conflict
  let latest ← assertRecord latestValue "latest decision reference"
  assertKeys latest ["decision_id"] [] "latest decision reference"
  let decisionId ← coerceString ((latest.get "decision_id").getD .null)
  let key ← keyOfString .decision decisionId
  let decisionValue ← requireRecord key "CORRUPT_STATE"
    "latest decision points to a missing decision" corruptState
  let decision ← validateDecision decisionValue
  ensure (decision.decision == .approve) "APPROVAL_INCOMPLETE"
    ("required role " ++ role.1 ++ " does not currently approve") conflict
  ensure (decision.actorOrgId == representative.actorOrgId &&
      decision.actorId == representative.actorId &&
      decision.actorDomainRole == representative.domainRole) "STALE_DECISION"
    ("required role " ++ role.1 ++ " was approved by a different representative") conflict
  ensure (boundToProposal decision proposal) "STALE_DECISION"
    ("required role " ++ role.1 ++ " approved a different immutable target") conflict
  ensure (!selected.contains decision.decisionId) "CORRUPT_STATE"
    "multiple required roles selected the same immutable approval decision" corruptState
  return decision

/-- The approvals of the required roles, in their order. -/
def latestApprovals (policy : AgreementPolicy) (proposal : AgreementProposalRecord) :
    List Id → List Id → Read (List Id)
  | [], selected => pure selected
  | role :: roles, selected =>
      match findRepresentative policy role with
      | none => throw (.error "Cannot read properties of undefined (reading 'actor_org_id')")
      | some representative => do
          let decision ← latestApproval proposal role representative selected
          latestApprovals policy proposal roles (selected ++ [decision.decisionId])

/-- `expected_active_agreement_id`: an id, or `null` for none. -/
def assertExpected (value : Option Value) : Except DomainError (Option Id) :=
  if isNull value then .ok none else some <$> assertId value "expected_active_agreement_id"

/-- The proposal is open, under the configuration in force. -/
def checkOpenProposal [Sha256] (config : DomainConfig) (proposal : AgreementProposalRecord) :
    Read (DocumentRevision × AgreementPolicy) := do
  let _ ← readReviewCounter proposal
  ensure (proposal.status == .open) "PROPOSAL_REPLAY"
    "proposal has already been consumed; resume requires a new proposal id" conflict
  let revisionValue ← requireRecord (keyFor.revision proposal.revisionDigest.1)
    "REVISION_NOT_FOUND"
    "proposal revision does not exist" notFound
  let revision ← validateRevision revisionValue
  let policy ← policyFor config proposal.policyId proposal.policyVersion
  assertPolicyMatchesRevision policy revision
  ensure (proposal.membershipEpoch == config.membershipEpoch &&
      proposal.roleBindingVersion == config.roleBindingVersion) "STALE_CONFIGURATION"
    "proposal was made under stale application configuration" conflict
  return (revision, policy)

/-- The active agreement is the expected one, of another revision. -/
def checkCurrentActive (currentActive : Option AgreementRecord) (expected : Option Id)
    (revision : DocumentRevision) : Except DomainError Unit := do
  let currentId := currentActive.map AgreementRecord.agreementId
  ensure (currentId == expected) "STALE_PRECONDITION"
    "active agreement changed since the proposal was reviewed"
    { status := 409, details := some (record
        [("expected_active_agreement_id", jsonOrNull expected),
          ("actual_active_agreement_id", jsonOrNull currentId)]) }
  ensure (!currentActive.any fun a => a.revisionDigest == revision.revisionDigest)
    "ALREADY_ACTIVE" "the same revision is already active for this slot" conflict

/-- The agreement that an activation makes of a proposal. -/
def activatedAgreement (ctx : Context) (config : DomainConfig) (agreementId : Id)
    (proposal : AgreementProposalRecord) (revision : DocumentRevision) (policy : AgreementPolicy)
    (approvalDecisionIds : List Id) : AgreementRecord :=
  { toSlot := revision.payload.toSlot
    agreementId := agreementId
    proposalId := proposal.proposalId
    revisionDigest := revision.revisionDigest
    policyId := policy.policyId
    policyVersion := policy.policyVersion
    membershipEpoch := config.membershipEpoch
    roleBindingVersion := config.roleBindingVersion
    approvalDecisionIds := approvalDecisionIds
    status := .active
    activatedBy := ctx.actor
    activatedAt := ctx.timestamp
    statusReason := none
    statusChangedBy := none
    statusChangedAt := none }

theorem superseded_fits : 1 ≤ "replaced_by_new_active_agreement".length ∧
    "replaced_by_new_active_agreement".length ≤ 1000 := by decide

/-- Supersede the active agreement, and point the slot and the proposal at the new one. -/
def recordActivation (ctx : Context) (currentActive : Option AgreementRecord)
    (agreement : AgreementRecord) (proposal : AgreementProposalRecord) : Tx Unit := do
  match currentActive with
  | some active =>
      let superseded := active.withStatus .superseded
        ⟨"replaced_by_new_active_agreement", superseded_fits⟩ ctx
      putClone (keyFor.agreement active.agreementId.1) superseded.toJson
  | none => pure ()
  putClone (keyFor.agreement agreement.agreementId.1) agreement.toJson
  put (keyFor.activeSlot proposal.toSlot) (pointTo agreement.agreementId)
  putClone (keyFor.proposal proposal.proposalId.1)
    ({ proposal with status := .activated, agreementId := some agreement.agreementId } :
      AgreementProposalRecord).toJson

def executeActivate [Sha256] (ctx : Context) (config : DomainConfig) (input : Fields) :
    Tx Value := do
  let _ ← requireHuman ctx config
  assertKeys input ["proposal_id", "agreement_id", "expected_active_agreement_id"] []
    "activate input"
  let proposalId ← assertId (input.get "proposal_id") "proposal_id"
  let agreementId ← assertId (input.get "agreement_id") "agreement_id"
  let expected ← assertExpected (input.get "expected_active_agreement_id")
  let proposalValue ← requireRecord (keyFor.proposal proposalId.1) "PROPOSAL_NOT_FOUND"
    "activation proposal does not exist" notFound
  let proposal ← validateProposal proposalValue
  let (revision, policy) ← checkOpenProposal config proposal
  let currentActive ← getActiveAgreement proposal.toSlot
  checkCurrentActive currentActive expected revision
  let existingAgreement ← getRecord (keyFor.agreement agreementId.1)
  ensure existingAgreement.isNone "IMMUTABLE_CONFLICT" "agreement_id cannot be reused" conflict
  let approvalDecisionIds ← latestApprovals policy proposal policy.requiredDomainRoles []
  dependencyEligible revision 0 []
  let agreement := activatedAgreement ctx config agreementId proposal revision policy
    approvalDecisionIds
  let epoch ← incrementEpoch
  recordActivation ctx currentActive agreement proposal
  return record [("status", jsonString "active"),
    ("agreement_id", jsonString agreement.agreementId.1),
    ("revision_digest", jsonString agreement.revisionDigest.1),
    ("eligibility_epoch", jsonNat epoch.1),
    ("slot", jsonString (slotKey agreement.toSlot))]

/-! ## Withdrawing and suspending -/

def executeStatusChange (ctx : Context) (config : DomainConfig) (input : Fields)
    (desired : AgreementStatus) : Tx Value := do
  let _ ← requireHuman ctx config
  assertKeys input ["agreement_id", "reason"] [] (desired.text ++ " input")
  let agreementId ← assertId (input.get "agreement_id") "agreement_id"
  let reason ← assertNonEmptyString (input.get "reason") "reason" 1000
  let value ← requireRecord (keyFor.agreement agreementId.1) "AGREEMENT_NOT_FOUND"
    "agreement does not exist" notFound
  let agreement ← validateAgreement value
  let policy ← policyFor config agreement.policyId agreement.policyVersion
  ensure (policy.roleRepresentatives.any fun representative =>
      representative.actorOrgId == ctx.actor.orgId && representative.actorId == ctx.actor.actorId)
    "FORBIDDEN" "only a named domain representative can change agreement status" forbidden
  ensure (agreement.status == .active) "AGREEMENT_NOT_ACTIVE"
    "only an active agreement can be withdrawn or suspended" conflict
  putClone (keyFor.agreement agreement.agreementId.1)
    (agreement.withStatus desired reason ctx).toJson
  put (keyFor.activeSlot agreement.toSlot) (pointTo none)
  let epoch ← incrementEpoch
  return record [("status", jsonString desired.text),
    ("agreement_id", jsonString agreement.agreementId.1),
    ("eligibility_epoch", jsonNat epoch.1)]

/-! ## Fences -/

def readEpoch : Read (SafeInt 0) := do
  let some epochValue ← getRecord keyFor.eligibilityEpoch | return ⟨0, SafeInt.zero_valid⟩
  assertSafeInteger epochValue "eligibility_epoch" 0

def executeFence (ctx : Context) (config : DomainConfig) (input : Fields) : Tx Value := do
  let _ ← configuredIdentity config ctx.actor
  assertKeys input ["nonce"] [] "fence input"
  let nonce ← assertPattern isNonce (input.get "nonce")
    "fence nonce must be 16 to 128 safe characters"
  ensure config.servingEnabled "SERVING_FROZEN" "serving is disabled" conflict
  let existing ← getRecord (keyFor.fence nonce.1)
  ensure existing.isNone "IMMUTABLE_CONFLICT" "fence nonce has already been used" conflict
  let epoch ← readEpoch
  put (keyFor.fence nonce.1)
    (FenceRecord.toJson { nonce := nonce, eligibilityEpoch := epoch, txId := ctx.txId })
  return record [("status", jsonString "fenced"), ("nonce", jsonString nonce.1),
    ("eligibility_epoch", jsonNat epoch.1), ("tx_id", jsonString ctx.txId.1)]

/-! ## Transactions -/

/-- The commands of `performCommand`. -/
def commandTypes : List String :=
  ["publish_revision", "propose", "decide", "activate", "withdraw", "suspend", "fence"]

def performCommand [Sha256] (ctx : Context) (config : DomainConfig) (command : DomainCommand) :
    Tx Value :=
  match command.type.1 with
  | "publish_revision" => executePublish ctx config command.input
  | "propose" => executePropose ctx config command.input
  | "decide" => executeDecide ctx config command.input
  | "activate" => executeActivate ctx config command.input
  | "withdraw" => executeStatusChange ctx config command.input .withdrawn
  | "suspend" => executeStatusChange ctx config command.input .suspended
  | "fence" => executeFence ctx config command.input
  | type => liftM (reject "UNSUPPORTED_COMMAND" ("unsupported domain command " ++ type) {} :
      Read Value)

def putPolicies : List AgreementPolicy → Tx Unit
  | [] => pure ()
  | policy :: rest => do
      putClone (keyFor.policy policy.policyId.1 policy.policyVersion.1) policy.toJson
      putPolicies rest

/-- Bootstrap is separate from `execute`: there is no governance update shortcut. -/
def bootstrap (ctx : TxContext) (configInput : Value) : Tx Value := do
  let ctx ← assertContext ctx
  ensure (ctx.actor.kind == .human) "FORBIDDEN" "only a human bootstrap actor is accepted"
    forbidden
  ensure (isString ((isRecord configInput).bind fun fields => fields.get "channel_id")
      ctx.channelId.1) "SCOPE_MISMATCH" "bootstrap transaction channel does not match config"
    conflict
  let config ← validateConfig configInput
  let existing ← getRecord keyFor.config
  ensure existing.isNone "ALREADY_BOOTSTRAPPED"
    "channel configuration is immutable and already exists" conflict
  putClone keyFor.config config.toJson
  put keyFor.eligibilityEpoch (jsonNat 0)
  putPolicies config.policies
  return record [("status", jsonString "bootstrapped"),
    ("channel_id", jsonString config.channelId.1), ("config_version", config.configVersion.toJson),
    ("membership_epoch", jsonNat config.membershipEpoch.1),
    ("role_binding_version", jsonNat config.roleBindingVersion.1)]

/-- SHA-256 of the canonical `{ type, input }`. -/
def idempotencyDigest [Sha256] (command : DomainCommand) : Except DomainError String :=
  canonicalDigest (record [("type", jsonString command.type.1), ("input", Value.obj command.input)])

/-- `sameActor(value as Actor, actor)` of a value that was never checked. -/
def isActor (value : Option Value) (actor : Actor) : Except Thrown Bool :=
  match value with
  | none => .error (.error "Cannot read properties of undefined (reading 'org_id')")
  | some .null => .error (.error "Cannot read properties of null (reading 'org_id')")
  | some (.obj fields) =>
      .ok (isString (Fields.get fields "org_id") actor.orgId.1 &&
        isString (Fields.get fields "actor_id") actor.actorId.1 &&
        isString (Fields.get fields "kind") actor.kind.text)
  | some _ => .ok false

/-- The stored result of the command, if the record is of this very request. -/
def replay (actor : Actor) (command : DomainCommand) (requestDigest : String)
    (priorValue : Value) : Read Value := do
  let prior ← assertRecord priorValue "idempotency record"
  assertKeys prior ["record_type", "command_id", "command_type", "command_digest", "actor",
    "result", "tx_id"] [] "idempotency record"
  ensure (isString (prior.get "record_type") "IdempotencyRecord") "CORRUPT_STATE"
    "idempotency record type invalid" corruptState
  let sameRequest := isString (prior.get "command_digest") requestDigest &&
    isString (prior.get "command_type") command.type.1
  let same ← if sameRequest then isActor (prior.get "actor") actor else pure false
  ensure same "IDEMPOTENCY_CONFLICT"
    "command_id is already bound to another actor or request payload" conflict
  cloneCanonical ((prior.get "result").getD .null)

/-- Execute one deterministic state transition. -/
def execute [Sha256] (ctx : TxContext) (command : Value) : Tx Value := do
  let ctx ← assertContext ctx
  let command ← validateCommand command
  let config ← readConfig
  ensure (ctx.channelId == config.channelId) "SCOPE_MISMATCH"
    "transaction channel does not match configured channel" conflict
  let _ ← configuredIdentity config ctx.actor
  let idempotencyKey := keyFor.idempotency ctx.actor.orgId.1 command.commandId.1
  let requestDigest ← idempotencyDigest command
  match ← getRecord idempotencyKey with
  | some priorValue => replay ctx.actor command requestDigest priorValue
  | none =>
      let result ← performCommand ctx config command
      let recorded ← cloneCanonical result
      let idempotency : IdempotencyRecord :=
        { commandId := command.commandId
          commandType := command.type
          commandDigest := requestDigest
          actor := ctx.actor
          result := recorded
          txId := ctx.txId }
      putClone idempotencyKey idempotency.toJson
      return result

end Knowledger
