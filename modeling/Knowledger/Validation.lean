import Knowledger.Checks

/-!
# Validators

The validators of the stored records and of the inputs, check by check in the order of
the source, with the code and message of every failure.
-/

namespace Knowledger

open Js

/-! ## Parts -/

def actorKinds : List ActorKind := [.human, .agent]

/-- The slot fields of a record. -/
def assertSlotShape (value : Fields) : Except DomainError Slot := do
  let channelId ← assertId (value.get "channel_id") "slot.channel_id"
  let documentId ← assertId (value.get "document_id") "slot.document_id"
  let contextId ← assertId (value.get "context_id") "slot.context_id"
  let scopeId ← assertId (value.get "scope_id") "slot.scope_id"
  let usageScope ← assertUsageScope (value.get "usage_scope") "slot.usage_scope"
  return { channelId := channelId, documentId, contextId, scopeId, usageScope }

/-- An actor embedded in a record; an invalid kind fails with the code, message and options
of that record. -/
def validateActor (value : Option Value) (label code message : String)
    (options : DomainErrorOptions) : Except DomainError Actor := do
  let value ← assertRecord value label
  assertKeys value ["org_id", "actor_id", "kind"] [] label
  let orgId ← assertId (value.get "org_id") (label ++ ".org_id")
  let actorId ← assertId (value.get "actor_id") (label ++ ".actor_id")
  let kind ← expect (parseEnum ActorKind.text actorKinds (value.get "kind")) code message options
  return { orgId := orgId, actorId, kind }

/-! ## Revisions -/

def enforcements : List Enforcement := [.requiresActive, .informational]

def validateDependency (channelId : Id) (index : Nat) (value : Value) :
    Except DomainError RevisionDependency := do
  let label := at_ "dependencies" index
  let value ← assertRecord value label
  assertKeys value ["revision_digest", "context_id", "usage_scope", "relationship",
    "enforcement", "document_id", "scope_id", "channel_id"] [] label
  let revisionDigest ← assertDigest (value.get "revision_digest") (label ++ ".revision_digest")
  let contextId ← assertId (value.get "context_id") (label ++ ".context_id")
  let usageScope ← assertUsageScope (value.get "usage_scope") (label ++ ".usage_scope")
  let relationship ← assertPattern isRelationship (value.get "relationship")
    (label ++ ".relationship is invalid")
  let enforcement ← expect (parseEnum Enforcement.text enforcements (value.get "enforcement"))
    "INVALID_INPUT" (label ++ ".enforcement is invalid") {}
  let documentId ← assertId (value.get "document_id") (label ++ ".document_id")
  let scopeId ← assertId (value.get "scope_id") (label ++ ".scope_id")
  valid (isString (value.get "channel_id") channelId.1)
    (label ++ ".channel_id must match the revision channel")
  let _ ← canonicalize (.obj value)
  cloneTyped RevisionDependency.toJson
    { channelId := channelId, documentId, contextId, scopeId, usageScope, revisionDigest,
      relationship, enforcement }

def validateSharedAssertion (index : Nat) (value : Value) :
    Except DomainError SharedAssertion := do
  let label := at_ "shared_assertions" index
  let value ← assertRecord value label
  assertKeys value ["assertion_id", "statement", "source_visibility"] [] label
  let assertionId ← assertId (value.get "assertion_id") (label ++ ".assertion_id")
  let statement ← assertNonEmptyString (value.get "statement") (label ++ ".statement") 300
  valid (isString (value.get "source_visibility") "private_shared_assertion")
    (label ++ ".source_visibility is invalid")
  let _ ← canonicalize (.obj value)
  cloneTyped SharedAssertion.toJson { assertionId := assertionId, statement }

def sourceKinds : List SourceKind := [.humanAuthored, .approvedImport, .llmDrafted]

def validateMetadata (value : Option Value) : Except DomainError RevisionMetadata := do
  let label := "revision.payload.metadata"
  let value ← assertRecord value label
  assertKeys value ["author_id", "created_at", "source_kind", "shared_assertions",
    "author_org_id"] [] label
  let authorId ← assertId (value.get "author_id") (label ++ ".author_id")
  let createdAt ← assertNonEmptyString (value.get "created_at") (label ++ ".created_at") 80
  let sourceKind ← expect (parseEnum SourceKind.text sourceKinds (value.get "source_kind"))
    "INVALID_INPUT" "revision source_kind is invalid" {}
  let entries ← assertArray (value.get "shared_assertions") (label ++ ".shared_assertions")
  let sharedAssertions ← eachAt validateSharedAssertion 0 entries
  assertUniqueCanonical (sharedAssertions.map SharedAssertion.toJson)
    (label ++ ".shared_assertions")
  let authorOrgId ← assertId (value.get "author_org_id") (label ++ ".author_org_id")
  return { authorId := authorId, createdAt, sourceKind, sharedAssertions, authorOrgId }

/-- `payload` after its record check, with `assertNoAgreementId` at the end. -/
def validatePayload (value : Fields) : Except DomainError DocumentRevisionPayload := do
  let label := "revision.payload"
  assertKeys value ["contract_type", "contract_version", "revision_id", "document_id",
    "context_id", "scope_id", "usage_scope", "channel_id", "visibility", "title",
    "body_markdown", "parents", "dependencies", "metadata"] [] label
  valid (isString (value.get "contract_type") "DocumentRevision" &&
    isNat (value.get "contract_version") 1) "revision payload contract is invalid"
  let revisionId ← assertId (value.get "revision_id") (label ++ ".revision_id")
  let documentId ← assertId (value.get "document_id") (label ++ ".document_id")
  let contextId ← assertId (value.get "context_id") (label ++ ".context_id")
  let scopeId ← assertId (value.get "scope_id") (label ++ ".scope_id")
  let usageScope ← assertUsageScope (value.get "usage_scope") (label ++ ".usage_scope")
  let channelId ← assertId (value.get "channel_id") (label ++ ".channel_id")
  valid (isString (value.get "visibility") "shared_channel")
    "revision visibility must be shared_channel"
  let title ← assertNonEmptyString (value.get "title") (label ++ ".title") 200
  let bodyMarkdown ← assertNonEmptyString (value.get "body_markdown")
    (label ++ ".body_markdown") 262144
  valid (bodyMarkdown.1.utf8ByteSize ≤ 262144) "revision body exceeds 256 KiB UTF-8 limit"
  let rawParents ← assertArray (value.get "parents") (label ++ ".parents")
  valid (rawParents.length ≤ 2) "at most two parents are allowed"
  let parents ← eachAt (fun index v => assertDigest v (at_ (label ++ ".parents") index)) 0
    rawParents
  assertUniqueCanonical (parents.map jsonText) (label ++ ".parents")
  let rawDependencies ← assertArray (value.get "dependencies") (label ++ ".dependencies")
  valid (rawDependencies.length ≤ 32) "at most 32 dependencies are allowed"
  let dependencies ← eachAt (validateDependency channelId) 0 rawDependencies
  assertUniqueCanonical (dependencies.map RevisionDependency.toJson) (label ++ ".dependencies")
  let metadata ← validateMetadata (value.get "metadata")
  assertNoAgreementId (.obj value) "payload"
  .ok
    { channelId := channelId, documentId, contextId, scopeId, usageScope, revisionId, title,
      bodyMarkdown, parents, dependencies, metadata }

def validateRevision [Sha256] (revision : Option Value) : Except DomainError DocumentRevision := do
  let revision ← assertRecord revision "revision"
  assertKeys revision ["revision_digest", "payload"] [] "revision"
  let revisionDigest ← assertDigest (revision.get "revision_digest") "revision.revision_digest"
  let payload ← assertRecord (revision.get "payload") "revision.payload"
  let payload ← validatePayload payload
  let canonicalPayload ← canonicalize payload.toJson
  valid (canonicalPayload.utf8ByteSize ≤ 524288)
    "canonical revision payload exceeds 512 KiB limit"
  let expectedDigest ← canonicalDigest payload.toJson
  ensure (revisionDigest.1 == expectedDigest) "DIGEST_MISMATCH"
    "revision_digest does not match the canonical payload" {}
  return { revisionDigest := revisionDigest, payload }

/-! ## Policies -/

def repKey (r : RoleRepresentative) : String := r.actorOrgId.1 ++ "|" ++ r.actorId.1

/-- The representatives, with the roles and actors seen so far. -/
def validateRepresentatives (required : List Value) :
    Nat → List Value → List Id → List String → Except DomainError (List RoleRepresentative)
  | _, [], roles, _ => do
      valid (roles.length == required.length) "policy representative roles are incomplete"
      return []
  | index, v :: rest, roles, representatives => do
      let label := at_ "policy.role_representatives" index
      let value ← assertRecord v label
      assertKeys value ["domain_role", "actor_org_id", "actor_id"] [] label
      let domainRole ← assertId (value.get "domain_role") (label ++ ".domain_role")
      let actorOrgId ← assertId (value.get "actor_org_id") (label ++ ".actor_org_id")
      let actorId ← assertId (value.get "actor_id") (label ++ ".actor_id")
      valid (required.any fun r => isString r domainRole.1)
        "policy representative role is not required"
      valid (!roles.contains domainRole) "policy has duplicate role representatives"
      let representative := { domainRole := domainRole, actorOrgId, actorId }
      valid (!representatives.contains (repKey representative))
        "one actor cannot fill multiple required roles"
      let _ ← canonicalize (.obj value)
      let normalized ← cloneTyped RoleRepresentative.toJson representative
      let rest ← validateRepresentatives required (index + 1) rest (domainRole :: roles)
        (repKey representative :: representatives)
      return normalized :: rest

def validatePolicy (value : Option Value) : Except DomainError AgreementPolicy := do
  let value ← assertRecord value "policy"
  assertKeys value ["contract_type", "contract_version", "policy_id", "policy_version",
    "document_id", "context_id", "scope_id", "usage_scope", "channel_id", "membership_epoch",
    "role_binding_version", "acceptance_slot", "required_domain_roles", "allowed_decisions",
    "role_decision_rule", "role_representatives"] [] "policy"
  valid (isString (value.get "contract_type") "AgreementPolicy" &&
    isNat (value.get "contract_version") 1) "policy contract is invalid"
  let policyId ← assertId (value.get "policy_id") "policy.policy_id"
  let policyVersion ← assertSafeInteger (value.get "policy_version") "policy.policy_version" 1
  let documentId ← assertId (value.get "document_id") "policy.document_id"
  let contextId ← assertId (value.get "context_id") "policy.context_id"
  let scopeId ← assertId (value.get "scope_id") "policy.scope_id"
  let usageScope ← assertUsageScope (value.get "usage_scope") "policy.usage_scope"
  let channelId ← assertId (value.get "channel_id") "policy.channel_id"
  let membershipEpoch ← assertSafeInteger (value.get "membership_epoch")
    "policy.membership_epoch" 1
  let roleBindingVersion ← assertSafeInteger (value.get "role_binding_version")
    "policy.role_binding_version" 1
  let acceptanceSlot ← assertId (value.get "acceptance_slot") "policy.acceptance_slot"
  let roles ← assertArray (value.get "required_domain_roles") "policy.required_domain_roles"
  valid (1 ≤ roles.length && roles.length ≤ 32) "policy must require one to 32 roles"
  let requiredDomainRoles ← eachAt
    (fun index v => assertId v (at_ "policy.required_domain_roles" index)) 0 roles
  assertUniqueCanonical roles "policy.required_domain_roles"
  let decisions ← assertArray (value.get "allowed_decisions") "policy.allowed_decisions"
  valid (1 ≤ decisions.length) "policy.allowed_decisions cannot be empty"
  let allowedDecisions ← eachAt
    (fun index v => assertId v (at_ "policy.allowed_decisions" index)) 0 decisions
  assertUniqueCanonical decisions "policy.allowed_decisions"
  valid (isString (value.get "role_decision_rule") "named_representatives")
    "only named_representatives is supported in v1"
  let representatives ← assertArray (value.get "role_representatives")
    "policy.role_representatives"
  valid (representatives.length == roles.length)
    "policy must have exactly one representative per required role"
  let roleRepresentatives ← validateRepresentatives roles 0 representatives [] []
  .ok
    { channelId := channelId, documentId, contextId, scopeId, usageScope, policyId, policyVersion,
      membershipEpoch, roleBindingVersion, acceptanceSlot, requiredDomainRoles, allowedDecisions,
      roleRepresentatives }

/-! ## Configuration -/

def validatePublishContext (label : String) (index : Nat) (value : Value) :
    Except DomainError PublishContext :=
  if isString value "*" then .ok .all
  else PublishContext.context <$> assertId value (at_ (label ++ ".publish_contexts") index)

def identityKey (i : ConfigIdentity) : String := i.orgId.1 ++ "|" ++ i.actorId.1

/-- The identities, with the identity keys seen so far. -/
def validateIdentities : Nat → List Value → List String → Except DomainError (List ConfigIdentity)
  | _, [], _ => .ok []
  | index, v :: rest, seen => do
      let label := at_ "config.identities" index
      let value ← assertRecord v label
      assertKeys value ["org_id", "actor_id", "kind", "publish_contexts", "can_propose"] [] label
      let orgId ← assertId (value.get "org_id") (label ++ ".org_id")
      let actorId ← assertId (value.get "actor_id") (label ++ ".actor_id")
      let kind ← expect (parseEnum ActorKind.text actorKinds (value.get "kind"))
        "INVALID_INPUT" (label ++ ".kind is invalid") {}
      let contexts ← assertArray (value.get "publish_contexts") (label ++ ".publish_contexts")
      let publishContexts ← eachAt (validatePublishContext label) 0 contexts
      assertUniqueCanonical contexts (label ++ ".publish_contexts")
      let canPropose ← assertBool (value.get "can_propose") (label ++ ".can_propose")
      let identity := { orgId := orgId, actorId, kind, publishContexts, canPropose }
      valid (!seen.contains (identityKey identity)) "config contains duplicate identities"
      let rest ← validateIdentities (index + 1) rest (identityKey identity :: seen)
      return identity :: rest

/-- Every representative is the configured human of that name. -/
def assertRepresentatives (identities : List ConfigIdentity) :
    List RoleRepresentative → Except DomainError Unit
  | [] => .ok ()
  | r :: rest => do
      let identity := identities.find? fun candidate =>
        candidate.orgId == r.actorOrgId && candidate.actorId == r.actorId
      valid (identity.any fun i => i.kind == .human)
        "policy representative must be a configured human identity"
      assertRepresentatives identities rest

def policyKey (p : AgreementPolicy) : String :=
  p.policyId.1 ++ "|" ++ Nat.repr p.policyVersion.1

/-- The policies of a config, with the policy keys seen so far. -/
def validatePolicies (channelId : Id) (membershipEpoch roleBindingVersion : SafeInt 1)
    (identities : List ConfigIdentity) :
    Nat → List Value → List String → Except DomainError (List AgreementPolicy)
  | _, [], _ => .ok []
  | index, v :: rest, seen => do
      let policy ← validatePolicy v
      let label := at_ "config.policies" index
      valid (policy.channelId == channelId) (label ++ " channel differs from config")
      valid (policy.membershipEpoch == membershipEpoch)
        (label ++ " membership epoch differs from config")
      valid (policy.roleBindingVersion == roleBindingVersion)
        (label ++ " role binding version differs from config")
      valid (!seen.contains (policyKey policy)) "config contains duplicate policy versions"
      assertRepresentatives identities policy.roleRepresentatives
      let rest ← validatePolicies channelId membershipEpoch roleBindingVersion identities
        (index + 1) rest (policyKey policy :: seen)
      return policy :: rest

def validateConfig (value : Option Value) : Except DomainError DomainConfig := do
  let value ← assertRecord value "config"
  assertKeys value ["config_version", "channel_id", "membership_epoch", "role_binding_version",
    "serving_enabled", "identities", "policies"] [] "config"
  let configVersion ← assertVersion (value.get "config_version") "config.config_version"
  let channelId ← assertId (value.get "channel_id") "config.channel_id"
  let membershipEpoch ← assertSafeInteger (value.get "membership_epoch")
    "config.membership_epoch" 1
  let roleBindingVersion ← assertSafeInteger (value.get "role_binding_version")
    "config.role_binding_version" 1
  let servingEnabled ← assertBool (value.get "serving_enabled") "config.serving_enabled"
  let entries ← assertArray (value.get "identities") "config.identities"
  valid (1 ≤ entries.length) "config.identities cannot be empty"
  let identities ← validateIdentities 0 entries []
  let entries ← assertArray (value.get "policies") "config.policies"
  valid (1 ≤ entries.length) "config.policies cannot be empty"
  let policies ← validatePolicies channelId membershipEpoch roleBindingVersion identities 0
    entries []
  .ok
    { configVersion := configVersion, channelId, membershipEpoch, roleBindingVersion,
      servingEnabled, identities, policies }

/-! ## Proposals, decisions, agreements -/

def proposalStatuses : List ProposalStatus := [.open, .activated]

def validateProposal (value : Option Value) : Except DomainError AgreementProposalRecord := do
  let value ← assertRecord value "proposal record"
  assertKeys value ["record_type", "proposal_id", "revision_digest", "policy_id",
    "policy_version", "membership_epoch", "role_binding_version", "config_version", "status",
    "created_by", "created_at", "review_counter", "channel_id", "document_id", "context_id",
    "scope_id", "usage_scope"] ["agreement_id"] "proposal record"
  ensure (isString (value.get "record_type") "AgreementProposal") "CORRUPT_STATE"
    "stored proposal has invalid record type" corruptState
  let proposalId ← assertId (value.get "proposal_id") "proposal.proposal_id"
  let revisionDigest ← assertDigest (value.get "revision_digest") "proposal.revision_digest"
  let policyId ← assertId (value.get "policy_id") "proposal.policy_id"
  let policyVersion ← assertSafeInteger (value.get "policy_version") "proposal.policy_version" 1
  let membershipEpoch ← assertSafeInteger (value.get "membership_epoch")
    "proposal.membership_epoch" 1
  let roleBindingVersion ← assertSafeInteger (value.get "role_binding_version")
    "proposal.role_binding_version" 1
  let configVersion ← assertVersion (value.get "config_version") "proposal.config_version"
  let status ← expect (parseEnum ProposalStatus.text proposalStatuses (value.get "status"))
    "CORRUPT_STATE" "stored proposal has invalid status" corruptState
  let createdBy ← validateActor (value.get "created_by") "proposal.created_by" "CORRUPT_STATE"
    "stored proposal actor kind invalid" corruptState
  let createdAt ← assertNonEmptyString (value.get "created_at") "proposal.created_at" 80
  let reviewCounter ← assertSafeInteger (value.get "review_counter") "proposal.review_counter" 0
  let agreementId ← optionally (fun v => assertId v "proposal.agreement_id")
    (value.get "agreement_id")
  let slot ← assertSlotShape value
  let _ ← canonicalize (.obj value)
  cloneTyped AgreementProposalRecord.toJson
    { toSlot := slot, proposalId, revisionDigest, policyId, policyVersion, membershipEpoch,
      roleBindingVersion, configVersion, status, createdBy, createdAt, reviewCounter,
      agreementId }

def approvalKinds : List ApprovalKind := [.approve, .object, .abstain, .retract]

/-- Only a retraction names the decision it retracts. -/
def assertRetracts (kind : ApprovalKind) (value : Option Value) :
    Except DomainError (Option Id) :=
  if kind = .retract then some <$> assertId value "decision.retracts_decision_id"
  else do
    valid value.isNone "retracts_decision_id is only valid for retract decisions"
    return none

def validateDecision (value : Option Value) : Except DomainError ApprovalDecision := do
  let value ← assertRecord value "decision"
  assertKeys value ["contract_type", "contract_version", "decision_id", "revision_digest",
    "document_id", "context_id", "scope_id", "usage_scope", "channel_id", "policy_id",
    "policy_version", "membership_epoch", "role_binding_version", "actor_org_id", "actor_id",
    "subject_id", "actor_domain_role", "decision", "rationale", "decided_at", "proposal_id"]
    ["retracts_decision_id"] "decision"
  valid (isString (value.get "contract_type") "ApprovalDecision" &&
    isNat (value.get "contract_version") 1) "decision contract is invalid"
  let decisionId ← assertId (value.get "decision_id") "decision.decision_id"
  let revisionDigest ← assertDigest (value.get "revision_digest") "decision.revision_digest"
  let documentId ← assertId (value.get "document_id") "decision.document_id"
  let contextId ← assertId (value.get "context_id") "decision.context_id"
  let scopeId ← assertId (value.get "scope_id") "decision.scope_id"
  let channelId ← assertId (value.get "channel_id") "decision.channel_id"
  let policyId ← assertId (value.get "policy_id") "decision.policy_id"
  let actorOrgId ← assertId (value.get "actor_org_id") "decision.actor_org_id"
  let actorId ← assertId (value.get "actor_id") "decision.actor_id"
  let subjectId ← assertId (value.get "subject_id") "decision.subject_id"
  let actorDomainRole ← assertId (value.get "actor_domain_role") "decision.actor_domain_role"
  let proposalId ← assertId (value.get "proposal_id") "decision.proposal_id"
  let usageScope ← assertUsageScope (value.get "usage_scope") "decision.usage_scope"
  let policyVersion ← assertSafeInteger (value.get "policy_version") "decision.policy_version" 1
  let membershipEpoch ← assertSafeInteger (value.get "membership_epoch")
    "decision.membership_epoch" 1
  let roleBindingVersion ← assertSafeInteger (value.get "role_binding_version")
    "decision.role_binding_version" 1
  let decision ← expect (parseEnum ApprovalKind.text approvalKinds (value.get "decision"))
    "INVALID_INPUT" "decision.decision is invalid" {}
  let rationale ← assertNonEmptyString (value.get "rationale") "decision.rationale" 1000
  let decidedAt ← assertNonEmptyString (value.get "decided_at") "decision.decided_at" 80
  let retractsDecisionId ← assertRetracts decision (value.get "retracts_decision_id")
  let _ ← assertSlotShape value
  let _ ← canonicalize (.obj value)
  cloneTyped ApprovalDecision.toJson
    { channelId := channelId, documentId, contextId, scopeId, usageScope, decisionId,
      revisionDigest, policyId, policyVersion, membershipEpoch, roleBindingVersion, actorOrgId,
      actorId, subjectId, actorDomainRole, decision, rationale, decidedAt, proposalId,
      retractsDecisionId }

def agreementStatuses : List AgreementStatus := [.active, .superseded, .withdrawn, .suspended]

def validateAgreement (value : Option Value) : Except DomainError AgreementRecord := do
  let value ← assertRecord value "agreement"
  assertKeys value ["agreement_id", "proposal_id", "revision_digest", "policy_id",
    "policy_version", "membership_epoch", "role_binding_version", "approval_decision_ids",
    "status", "activated_by", "activated_at", "channel_id", "document_id", "context_id",
    "scope_id", "usage_scope"] ["status_reason", "status_changed_by", "status_changed_at"]
    "agreement"
  let agreementId ← assertId (value.get "agreement_id") "agreement.agreement_id"
  let proposalId ← assertId (value.get "proposal_id") "agreement.proposal_id"
  let revisionDigest ← assertDigest (value.get "revision_digest") "agreement.revision_digest"
  let policyId ← assertId (value.get "policy_id") "agreement.policy_id"
  let policyVersion ← assertSafeInteger (value.get "policy_version") "agreement.policy_version" 1
  let membershipEpoch ← assertSafeInteger (value.get "membership_epoch")
    "agreement.membership_epoch" 1
  let roleBindingVersion ← assertSafeInteger (value.get "role_binding_version")
    "agreement.role_binding_version" 1
  let ids ← assertArray (value.get "approval_decision_ids") "agreement.approval_decision_ids"
  ensure (1 ≤ ids.length && ids.length ≤ 32) "CORRUPT_STATE"
    "stored agreement approval manifest is invalid" corruptState
  let approvalDecisionIds ← eachAt
    (fun index v => assertId v (at_ "agreement.approval_decision_ids" index)) 0 ids
  assertUniqueCanonical (approvalDecisionIds.map jsonText)
    "agreement.approval_decision_ids"
  let status ← expect (parseEnum AgreementStatus.text agreementStatuses (value.get "status"))
    "CORRUPT_STATE" "stored agreement status invalid" corruptState
  let activatedBy ← validateActor (value.get "activated_by") "agreement.activated_by"
    "CORRUPT_STATE" "agreement actor kind invalid" corruptState
  let activatedAt ← assertNonEmptyString (value.get "activated_at") "agreement.activated_at" 80
  let statusReason ← optionally
    (fun v => assertNonEmptyString v "agreement.status_reason" 1000) (value.get "status_reason")
  let statusChangedBy ← optionally
    (fun v => validateActor v "agreement.status_changed_by" "CORRUPT_STATE"
      "agreement status actor kind invalid" corruptState) (value.get "status_changed_by")
  let statusChangedAt ← optionally
    (fun v => assertNonEmptyString v "agreement.status_changed_at" 80)
    (value.get "status_changed_at")
  let slot ← assertSlotShape value
  let _ ← canonicalize (.obj value)
  cloneTyped AgreementRecord.toJson
    { toSlot := slot, agreementId, proposalId, revisionDigest, policyId, policyVersion,
      membershipEpoch, roleBindingVersion, approvalDecisionIds, status, activatedBy,
      activatedAt, statusReason, statusChangedBy, statusChangedAt }

/-! ## Contexts and commands -/

/-- A transaction context as an adapter hands it over. -/
structure TxContext where
  actor : Value
  channelId : Value
  txId : Value
  timestamp : Value

/-- A transaction context after `assertContext`. -/
structure Context where
  actor : Actor
  channelId : Id
  txId : Text 200
  timestamp : Text 80

def assertContext (ctx : TxContext) : Except DomainError Context := do
  let actor ← validateActor ctx.actor "actor" "INVALID_INPUT" "actor.kind is invalid" {}
  let channelId ← assertId ctx.channelId "channel_id"
  let txId ← assertNonEmptyString ctx.txId "tx_id" 200
  let timestamp ← assertNonEmptyString ctx.timestamp "timestamp" 80
  return { actor := actor, channelId, txId, timestamp }

/-- A command after `validateCommand`. -/
structure DomainCommand where
  commandId : Id
  type : Text 80
  input : Fields

def validateCommand (command : Value) : Except DomainError DomainCommand := do
  let command ← assertRecord command "command"
  assertKeys command ["command_id", "type", "input"] [] "command"
  let commandId ← assertId (command.get "command_id") "command.command_id"
  let type ← assertNonEmptyString (command.get "type") "command.type" 80
  let input ← assertRecord (command.get "input") "command.input"
  return { commandId := commandId, type, input }

/-- The publication fields of a `publish_revision` input. -/
structure Publication where
  revision : DocumentRevision
  configVersion : ConfigVersion
  membershipEpoch : SafeInt 1

def validatePublication [Sha256] (input : Fields) : Except DomainError Publication := do
  assertKeys input ["revision", "publication"] [] "publish_revision input"
  let revision ← validateRevision (input.get "revision")
  let publication ← assertRecord (input.get "publication") "publish_revision.publication"
  assertKeys publication ["revision_digest", "config_version", "membership_epoch"] []
    "publish_revision.publication"
  let revisionDigest ← assertDigest (publication.get "revision_digest")
    "publication.revision_digest"
  let configVersion ← assertVersion (publication.get "config_version")
    "publication.config_version"
  let membershipEpoch ← assertSafeInteger (publication.get "membership_epoch")
    "publication.membership_epoch" 1
  valid (revisionDigest == revision.revisionDigest) "publication digest does not match revision"
  return { revision := revision, configVersion, membershipEpoch }

end Knowledger
