import Knowledger.Keys

/-!
# Protocol records

The records the domain stores, as the validators return them, and the plain object each
is written as.  The fields that are single protocol strings or integers have the type of
their pattern.
-/

namespace Knowledger

open Js

/-! ## Objects -/

def jsonString (s : String) : Value := .str (.wellFormed s)
def jsonNat (n : Nat) : Value := .num (.int n)

/-- A string of one of the patterns. -/
def jsonText {pattern : String → Prop} (s : Subtype pattern) : Value := jsonString s.1

/-- The own properties of an object literal; a property that is `undefined` is left out. -/
def recordFields (fields : List (String × Option Value)) : Fields :=
  fields.filterMap fun f => f.2.map fun v => (.wellFormed f.1, v)

def record (fields : List (String × Option Value)) : Value := .obj (recordFields fields)

/-! ## Actors, versions -/

inductive ActorKind
  | human
  | agent
  deriving DecidableEq

def ActorKind.text : ActorKind → String
  | .human => "human"
  | .agent => "agent"

structure Actor where
  orgId : Id
  actorId : Id
  kind : ActorKind
  deriving DecidableEq

def Actor.toJson (a : Actor) : Value :=
  record [("org_id", jsonString a.orgId.1), ("actor_id", jsonString a.actorId.1),
    ("kind", jsonString a.kind.text)]

/-- `config_version` is an opaque immutable application version. -/
inductive ConfigVersion
  | number (n : SafeInt 1)
  | name (id : Id)
  deriving DecidableEq

def ConfigVersion.toJson : ConfigVersion → Value
  | .number n => jsonNat n.1
  | .name id => jsonString id.1

def Slot.fields (s : Slot) : List (String × Option Value) :=
  [("channel_id", jsonString s.channelId.1), ("document_id", jsonString s.documentId.1),
    ("context_id", jsonString s.contextId.1), ("scope_id", jsonString s.scopeId.1),
    ("usage_scope", jsonString s.usageScope.1)]

/-! ## Revisions -/

inductive Enforcement
  | requiresActive
  | informational
  deriving DecidableEq

def Enforcement.text : Enforcement → String
  | .requiresActive => "requires_active"
  | .informational => "informational"

structure RevisionDependency extends Slot where
  revisionDigest : Digest
  relationship : Relationship
  enforcement : Enforcement
  deriving DecidableEq

def RevisionDependency.toJson (d : RevisionDependency) : Value :=
  record [("revision_digest", jsonString d.revisionDigest.1),
    ("context_id", jsonString d.contextId.1), ("usage_scope", jsonString d.usageScope.1),
    ("relationship", jsonString d.relationship.1), ("enforcement", jsonString d.enforcement.text),
    ("document_id", jsonString d.documentId.1), ("scope_id", jsonString d.scopeId.1),
    ("channel_id", jsonString d.channelId.1)]

structure SharedAssertion where
  assertionId : Id
  statement : Text 300
  deriving DecidableEq

def SharedAssertion.toJson (a : SharedAssertion) : Value :=
  record [("assertion_id", jsonString a.assertionId.1), ("statement", jsonString a.statement.1),
    ("source_visibility", jsonString "private_shared_assertion")]

inductive SourceKind
  | humanAuthored
  | approvedImport
  | llmDrafted
  deriving DecidableEq

def SourceKind.text : SourceKind → String
  | .humanAuthored => "human_authored"
  | .approvedImport => "approved_import"
  | .llmDrafted => "llm_drafted"

structure RevisionMetadata where
  authorId : Id
  createdAt : Text 80
  sourceKind : SourceKind
  sharedAssertions : List SharedAssertion
  authorOrgId : Id
  deriving DecidableEq

def RevisionMetadata.toJson (m : RevisionMetadata) : Value :=
  record [("author_id", jsonString m.authorId.1), ("created_at", jsonString m.createdAt.1),
    ("source_kind", jsonString m.sourceKind.text),
    ("shared_assertions", Value.arr (m.sharedAssertions.map SharedAssertion.toJson)),
    ("author_org_id", jsonString m.authorOrgId.1)]

structure DocumentRevisionPayload extends Slot where
  revisionId : Id
  title : Text 200
  bodyMarkdown : Text 262144
  parents : List Digest
  dependencies : List RevisionDependency
  metadata : RevisionMetadata
  deriving DecidableEq

def DocumentRevisionPayload.toJson (p : DocumentRevisionPayload) : Value :=
  record [("contract_type", jsonString "DocumentRevision"), ("contract_version", jsonNat 1),
    ("revision_id", jsonString p.revisionId.1), ("document_id", jsonString p.documentId.1),
    ("context_id", jsonString p.contextId.1), ("scope_id", jsonString p.scopeId.1),
    ("usage_scope", jsonString p.usageScope.1), ("channel_id", jsonString p.channelId.1),
    ("visibility", jsonString "shared_channel"), ("title", jsonString p.title.1),
    ("body_markdown", jsonString p.bodyMarkdown.1),
    ("parents", Value.arr (p.parents.map jsonText)),
    ("dependencies", Value.arr (p.dependencies.map RevisionDependency.toJson)),
    ("metadata", p.metadata.toJson)]

structure DocumentRevision where
  revisionDigest : Digest
  payload : DocumentRevisionPayload
  deriving DecidableEq

def DocumentRevision.toJson (r : DocumentRevision) : Value :=
  record [("revision_digest", jsonString r.revisionDigest.1), ("payload", r.payload.toJson)]

/-! ## Policies and configuration -/

structure RoleRepresentative where
  domainRole : Id
  actorOrgId : Id
  actorId : Id
  deriving DecidableEq

def RoleRepresentative.toJson (r : RoleRepresentative) : Value :=
  record [("domain_role", jsonString r.domainRole.1), ("actor_org_id", jsonString r.actorOrgId.1),
    ("actor_id", jsonString r.actorId.1)]

structure AgreementPolicy extends Slot where
  policyId : Id
  policyVersion : SafeInt 1
  membershipEpoch : SafeInt 1
  roleBindingVersion : SafeInt 1
  acceptanceSlot : Id
  requiredDomainRoles : List Id
  allowedDecisions : List Id
  roleRepresentatives : List RoleRepresentative
  deriving DecidableEq

def AgreementPolicy.toJson (p : AgreementPolicy) : Value :=
  record [("contract_type", jsonString "AgreementPolicy"), ("contract_version", jsonNat 1),
    ("policy_id", jsonString p.policyId.1), ("policy_version", jsonNat p.policyVersion.1),
    ("document_id", jsonString p.documentId.1), ("context_id", jsonString p.contextId.1),
    ("scope_id", jsonString p.scopeId.1), ("usage_scope", jsonString p.usageScope.1),
    ("channel_id", jsonString p.channelId.1), ("membership_epoch", jsonNat p.membershipEpoch.1),
    ("role_binding_version", jsonNat p.roleBindingVersion.1),
    ("acceptance_slot", jsonString p.acceptanceSlot.1),
    ("required_domain_roles", Value.arr (p.requiredDomainRoles.map jsonText)),
    ("allowed_decisions", Value.arr (p.allowedDecisions.map jsonText)),
    ("role_decision_rule", jsonString "named_representatives"),
    ("role_representatives", Value.arr (p.roleRepresentatives.map RoleRepresentative.toJson))]

/-- A bounded context an identity may publish in; `*` is all of them. -/
inductive PublishContext
  | all
  | context (id : Id)
  deriving DecidableEq

def PublishContext.text : PublishContext → String
  | .all => "*"
  | .context id => id.1

structure ConfigIdentity extends Actor where
  publishContexts : List PublishContext
  canPropose : Bool
  deriving DecidableEq

def ConfigIdentity.toJson (i : ConfigIdentity) : Value :=
  record [("org_id", jsonString i.orgId.1), ("actor_id", jsonString i.actorId.1),
    ("kind", jsonString i.kind.text),
    ("publish_contexts", Value.arr (i.publishContexts.map fun c => jsonString c.text)),
    ("can_propose", Value.bool i.canPropose)]

structure DomainConfig where
  configVersion : ConfigVersion
  channelId : Id
  membershipEpoch : SafeInt 1
  roleBindingVersion : SafeInt 1
  servingEnabled : Bool
  identities : List ConfigIdentity
  policies : List AgreementPolicy
  deriving DecidableEq

def DomainConfig.toJson (c : DomainConfig) : Value :=
  record [("config_version", c.configVersion.toJson), ("channel_id", jsonString c.channelId.1),
    ("membership_epoch", jsonNat c.membershipEpoch.1),
    ("role_binding_version", jsonNat c.roleBindingVersion.1),
    ("serving_enabled", Value.bool c.servingEnabled),
    ("identities", Value.arr (c.identities.map ConfigIdentity.toJson)),
    ("policies", Value.arr (c.policies.map AgreementPolicy.toJson))]

/-! ## Proposals, decisions, agreements -/

inductive ProposalStatus
  | open
  | activated
  deriving DecidableEq

def ProposalStatus.text : ProposalStatus → String
  | .open => "open"
  | .activated => "activated"

structure AgreementProposalRecord extends Slot where
  proposalId : Id
  revisionDigest : Digest
  policyId : Id
  policyVersion : SafeInt 1
  membershipEpoch : SafeInt 1
  roleBindingVersion : SafeInt 1
  configVersion : ConfigVersion
  status : ProposalStatus
  createdBy : Actor
  createdAt : Text 80
  reviewCounter : SafeInt 0
  agreementId : Option Id
  deriving DecidableEq

def AgreementProposalRecord.toJson (p : AgreementProposalRecord) : Value :=
  record ([("record_type", some (jsonString "AgreementProposal")),
    ("proposal_id", jsonString p.proposalId.1),
    ("revision_digest", jsonString p.revisionDigest.1), ("policy_id", jsonString p.policyId.1),
    ("policy_version", jsonNat p.policyVersion.1),
    ("membership_epoch", jsonNat p.membershipEpoch.1),
    ("role_binding_version", jsonNat p.roleBindingVersion.1),
    ("config_version", p.configVersion.toJson), ("status", jsonString p.status.text),
    ("created_by", p.createdBy.toJson), ("created_at", jsonString p.createdAt.1),
    ("review_counter", jsonNat p.reviewCounter.1)] ++ p.toSlot.fields ++
    [("agreement_id", p.agreementId.map jsonText)])

inductive ApprovalKind
  | approve
  | object
  | abstain
  | retract
  deriving DecidableEq

def ApprovalKind.text : ApprovalKind → String
  | .approve => "approve"
  | .object => "object"
  | .abstain => "abstain"
  | .retract => "retract"

structure ApprovalDecision extends Slot where
  decisionId : Id
  revisionDigest : Digest
  policyId : Id
  policyVersion : SafeInt 1
  membershipEpoch : SafeInt 1
  roleBindingVersion : SafeInt 1
  actorOrgId : Id
  actorId : Id
  subjectId : Id
  actorDomainRole : Id
  decision : ApprovalKind
  rationale : Text 1000
  decidedAt : Text 80
  proposalId : Id
  retractsDecisionId : Option Id
  deriving DecidableEq

def ApprovalDecision.toJson (d : ApprovalDecision) : Value :=
  record [("contract_type", jsonString "ApprovalDecision"), ("contract_version", jsonNat 1),
    ("decision_id", jsonString d.decisionId.1),
    ("revision_digest", jsonString d.revisionDigest.1),
    ("document_id", jsonString d.documentId.1), ("context_id", jsonString d.contextId.1),
    ("scope_id", jsonString d.scopeId.1), ("usage_scope", jsonString d.usageScope.1),
    ("channel_id", jsonString d.channelId.1), ("policy_id", jsonString d.policyId.1),
    ("policy_version", jsonNat d.policyVersion.1),
    ("membership_epoch", jsonNat d.membershipEpoch.1),
    ("role_binding_version", jsonNat d.roleBindingVersion.1),
    ("actor_org_id", jsonString d.actorOrgId.1), ("actor_id", jsonString d.actorId.1),
    ("subject_id", jsonString d.subjectId.1),
    ("actor_domain_role", jsonString d.actorDomainRole.1),
    ("decision", jsonString d.decision.text), ("rationale", jsonString d.rationale.1),
    ("decided_at", jsonString d.decidedAt.1), ("proposal_id", jsonString d.proposalId.1),
    ("retracts_decision_id", d.retractsDecisionId.map jsonText)]

inductive AgreementStatus
  | active
  | superseded
  | withdrawn
  | suspended
  deriving DecidableEq

def AgreementStatus.text : AgreementStatus → String
  | .active => "active"
  | .superseded => "superseded"
  | .withdrawn => "withdrawn"
  | .suspended => "suspended"

structure AgreementRecord extends Slot where
  agreementId : Id
  proposalId : Id
  revisionDigest : Digest
  policyId : Id
  policyVersion : SafeInt 1
  membershipEpoch : SafeInt 1
  roleBindingVersion : SafeInt 1
  approvalDecisionIds : List Id
  status : AgreementStatus
  activatedBy : Actor
  activatedAt : Text 80
  statusReason : Option (Text 1000)
  statusChangedBy : Option Actor
  statusChangedAt : Option (Text 80)
  deriving DecidableEq

def AgreementRecord.toJson (a : AgreementRecord) : Value :=
  record ([("agreement_id", some (jsonString a.agreementId.1)),
    ("proposal_id", jsonString a.proposalId.1),
    ("revision_digest", jsonString a.revisionDigest.1), ("policy_id", jsonString a.policyId.1),
    ("policy_version", jsonNat a.policyVersion.1),
    ("membership_epoch", jsonNat a.membershipEpoch.1),
    ("role_binding_version", jsonNat a.roleBindingVersion.1),
    ("approval_decision_ids",
      Value.arr (a.approvalDecisionIds.map jsonText)),
    ("status", jsonString a.status.text), ("activated_by", a.activatedBy.toJson),
    ("activated_at", jsonString a.activatedAt.1)] ++ a.toSlot.fields ++
    [("status_reason", a.statusReason.map jsonText),
      ("status_changed_by", a.statusChangedBy.map Actor.toJson),
      ("status_changed_at", a.statusChangedAt.map jsonText)])

structure IdempotencyRecord where
  commandId : Id
  commandType : Text 80
  commandDigest : String
  actor : Actor
  result : Value
  txId : Text 200

def IdempotencyRecord.toJson (r : IdempotencyRecord) : Value :=
  record [("record_type", jsonString "IdempotencyRecord"),
    ("command_id", jsonString r.commandId.1), ("command_type", jsonString r.commandType.1),
    ("command_digest", jsonString r.commandDigest), ("actor", r.actor.toJson),
    ("result", r.result), ("tx_id", jsonString r.txId.1)]

structure FenceRecord where
  nonce : Nonce
  eligibilityEpoch : SafeInt 0
  txId : Text 200

def FenceRecord.toJson (f : FenceRecord) : Value :=
  record [("nonce", jsonString f.nonce.1), ("eligibility_epoch", jsonNat f.eligibilityEpoch.1),
    ("tx_id", jsonString f.txId.1)]

end Knowledger
