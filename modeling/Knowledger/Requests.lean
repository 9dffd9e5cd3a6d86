import Knowledger.Runs
import Knowledger.Lib.Sha256

/-!
# Requests

The contexts and commands that typed arguments are sent as, and what the checks of the
domain read back from them.  A typed request that meets the conditions of its command is one
call of a run (`Reaches.step`).
-/

namespace Knowledger

open Js Txn

/-! ## Contexts and commands -/

def Context.toTx (c : Context) : TxContext where
  actor := c.actor.toJson
  channelId := jsonString c.channelId.1
  txId := jsonString c.txId.1
  timestamp := jsonString c.timestamp.1

theorem assertContext_toTx (c : Context) : assertContext c.toTx = .ok c := by
  simp [assertContext, Context.toTx, validateActor_json]

def DomainCommand.toJson (c : DomainCommand) : Value :=
  record [("command_id", jsonString c.commandId.1), ("type", jsonString c.type.1),
    ("input", Value.obj c.input)]

theorem validateCommand_json (c : DomainCommand) : validateCommand c.toJson = .ok c := by
  rw [validateCommand, DomainCommand.toJson, assertRecord_record]
  simp [assertKeys_recordFields, assertRecord, isRecord]

/-! ## Inputs -/

def publishInput (p : Publication) : Fields :=
  recordFields [("revision", p.revision.toJson), ("publication", record
    [("revision_digest", jsonString p.revision.revisionDigest.1),
      ("config_version", p.configVersion.toJson),
      ("membership_epoch", jsonNat p.membershipEpoch.1)])]

def proposeInput (proposalId : Id) (digest : Digest) (policyId : Id) (version : SafeInt 1) :
    Fields :=
  recordFields [("proposal_id", jsonString proposalId.1), ("revision_digest", jsonString digest.1),
    ("policy_id", jsonString policyId.1), ("policy_version", jsonNat version.1)]

def decideInput (d : ApprovalDecision) : Fields := recordFields [("decision", d.toJson)]

def activateInput (proposalId agreementId : Id) (expected : Option Id) : Fields :=
  recordFields [("proposal_id", jsonString proposalId.1),
    ("agreement_id", jsonString agreementId.1),
    ("expected_active_agreement_id", jsonOrNull expected)]

def statusInput (agreementId : Id) (reason : Text 1000) : Fields :=
  recordFields [("agreement_id", jsonString agreementId.1), ("reason", jsonString reason.1)]

def fenceInput (nonce : Nonce) : Fields := recordFields [("nonce", jsonString nonce.1)]

variable [Sha256]

theorem validatePublication_json {p : Publication} (valid : p.revision.Valid) :
    validatePublication (publishInput p) = .ok p := by
  rw [validatePublication, publishInput]
  simp [assertKeys_recordFields, validateRevision_json valid]

/-! ## Executions -/

section Execution

variable {L : State} {s : Store} {ctx : Context} {config : DomainConfig} {command : DomainCommand}
  {r : Value} {es : List Entry}

/-- The result of a command fits into a record. -/
theorem Performs.canonicalizable (performs : Performs L ctx config command r es) :
    canonicalizable r 0 = true ∧ canonicalizable r 1 = true := by
  cases performs with
  | republish c type => simp [publishResult, canonicalizable_record, maxCanonicalDepth]
  | publish c type => simp [publishResult, canonicalizable_record, maxCanonicalDepth]
  | propose c type => simp [Proposing.result, canonicalizable_record, maxCanonicalDepth]
  | decide c type =>
      cases c.suspension <;>
        simp [Deciding.result, decidedResult, canonicalizable_record, maxCanonicalDepth]
  | activate c type => simp [Activating.result, canonicalizable_record, maxCanonicalDepth]
  | withdraw c type => simp [StatusChange.result, canonicalizable_record, maxCanonicalDepth]
  | suspend c type => simp [StatusChange.result, canonicalizable_record, maxCanonicalDepth]
  | fence c type => simp [Fencing.result, canonicalizable_record, maxCanonicalDepth]

/-- A typed request that passes the checks of its command is executed. -/
def Performs.execution (performs : Performs L ctx config command r es)
    {identity : ConfigIdentity} {digest : String} (config_eq : L.config = some config)
    (channel : ctx.channelId = config.channelId)
    (configured : configuredIdentity config ctx.actor = .ok identity)
    (digest_eq : idempotencyDigest command = .ok digest)
    (fresh : L (.idempotency ctx.actor.orgId command.commandId) = none) :
    Execution L ctx.toTx command.toJson where
  context := ctx
  request := command
  config := config
  identity := identity
  digest := digest
  context_eq := assertContext_toTx ctx
  request_eq := validateCommand_json command
  config_eq := config_eq
  channel := channel
  identity_eq := configured
  digest_eq := digest_eq
  result := r
  performed := es
  fresh := fresh
  performs := performs
  resultCanonical := canonicalize_isOk performs.canonicalizable.1
  recordCanonical := canonicalize_isOk (by
    have fits := performs.canonicalizable.2
    simp [idempotencyRecord, IdempotencyRecord.toJson, canonicalizable_record, maxCanonicalDepth,
      canonicalizable_normalize, Actor.canonicalizable_json, fits])

/-- A reachable store with the typed state it holds. -/
structure Reaches (s : Store) (L : State) : Prop where
  reachable : Reachable s
  represents : Represents L s

theorem Reaches.step (h : Reaches s L) {ctx : TxContext} {command : Value}
    (c : Execution L ctx command) : Reaches (Call.commit ⟨ctx, command⟩ s) (L.putAll c.entries) := by
  have run := (execute_ok h.represents).mpr (Or.inr ⟨c, rfl, rfl⟩)
  have next : Call.commit ⟨ctx, command⟩ s = (putAll [] c.entries).over s := by
    rw [Call.commit, commit, Call.program, run]
  refine ⟨?_, next ▸ represents_putAll h.represents _⟩
  obtain ⟨s₀, calls, b, rfl⟩ := h.reachable
  exact ⟨s₀, calls ++ [⟨ctx, command⟩], b, by rw [runAll_append]; rfl⟩

theorem Bootstrapping.reaches {ctx : TxContext} {input : Value}
    (c : Bootstrapping State.empty ctx input) :
    Bootstrapped ((putAll [] c.entries).over Store.empty) ∧
      Reaches ((putAll [] c.entries).over Store.empty) (State.empty.putAll c.entries) := by
  have empty : Represents State.empty Store.empty := represents_empty
  have start : Represents State.empty (Writes.over [] Store.empty) := by rwa [Writes.over_nil]
  have run := (bootstrap_ok start).mpr ⟨c, rfl, rfl⟩
  have b : Bootstrapped ((putAll [] c.entries).over Store.empty) := ⟨_, _, _, _, run, rfl⟩
  exact ⟨b, ⟨_, [], b, rfl⟩, represents_putAll empty _⟩

end Execution

/-! ## A channel -/

namespace Demo

/-- SHA-256 of the UTF-8 octets of a text. -/
@[reducible] def sha256 : Sha256 where
  hexDigest text := String.ofList (Sha2.hexDigest (text.toUTF8.toList.map UInt8.toNat))
  length_hexDigest text := by rw [String.toList_ofList, Sha2.length_hexDigest]
  hex_hexDigest text c mem := Sha2.hexDigest_hex (by rwa [String.toList_ofList] at mem)

def name (text : String) (valid : isId text = true := by decide) : Id := ⟨text, valid⟩

theorem base_isId : isId "base" = true := by decide

theorem role_isId : isId "role" = true := by decide

theorem date_fits : 1 ≤ "2026-01-01".length ∧ "2026-01-01".length ≤ 80 := by decide

def slot (document : Id) : Slot where
  channelId := name "team"
  documentId := document
  contextId := name "context"
  scopeId := name "scope"
  usageScope := ⟨"review/v1", by decide +kernel⟩

def owner : Actor where
  orgId := name "org"
  actorId := name "owner"
  kind := .human

def guest : Actor := { owner with actorId := name "guest" }

/-- The owner alone approves. -/
def policy (document : Id) : AgreementPolicy where
  toSlot := slot document
  policyId := document
  policyVersion := ⟨1, SafeInt.one_valid⟩
  membershipEpoch := ⟨1, SafeInt.one_valid⟩
  roleBindingVersion := ⟨1, SafeInt.one_valid⟩
  acceptanceSlot := name "acceptance"
  requiredDomainRoles := [name "role"]
  allowedDecisions := [name "approve", name "object"]
  roleRepresentatives := [⟨name "role", owner.orgId, owner.actorId⟩]

def config : DomainConfig where
  configVersion := .number ⟨1, SafeInt.one_valid⟩
  channelId := name "team"
  membershipEpoch := ⟨1, SafeInt.one_valid⟩
  roleBindingVersion := ⟨1, SafeInt.one_valid⟩
  servingEnabled := true
  identities := [⟨owner, [.all], true⟩]
  policies := [policy (name "base"), policy (name "middle"), policy (name "top")]

def context (actor : Actor) : Context where
  actor := actor
  channelId := name "team"
  txId := ⟨"tx", by decide⟩
  timestamp := ⟨"2026-01-01", by decide⟩

theorem policy_valid (document : Id) : (policy document).Valid where
  roles_pos := by simp [policy]
  roles_le := by simp [policy]
  roles_nodup := by simp [policy]
  decisions_pos := by simp [policy]
  decisions_nodup := by simp [policy, name]
  representatives := by constructor <;> simp [policy]

theorem config_valid : config.Valid where
  identities_pos := by decide
  identities := by constructor <;> simp [config, ConfigIdentity.Valid]
  policies_pos := by decide
  policies := by
    intro p mem
    simp only [config, List.mem_cons, List.not_mem_nil, or_false] at mem
    rcases mem with rfl | rfl | rfl <;>
      exact ⟨policy_valid _, rfl, rfl, rfl, by decide⟩
  policies_nodup := by decide

theorem config_canonical : ∃ text, canonicalize config.toJson = .ok text :=
  canonicalize_isOk (by decide +kernel)

theorem policies_storable : ∀ p ∈ config.policies, p.Storable := by
  intro p mem
  refine ⟨(config_valid.policies p mem).valid, canonicalize_isOk ?_⟩
  revert p
  decide +kernel

theorem owner_context : assertContext (context owner).toTx = .ok (context owner) :=
  assertContext_toTx _

theorem owner_human : (context owner).actor.kind = .human := rfl

theorem empty_fresh : State.empty .config = none := rfl

/-- The channel is bootstrapped by the owner. -/
def bootstrapping : Bootstrapping State.empty (context owner).toTx config.toJson where
  context := context owner
  config := config
  context_eq := owner_context
  human := owner_human
  channel := rfl
  config_eq := validateConfig_json config_valid
  fresh := empty_fresh
  canonical := config_canonical
  storable := policies_storable

/-- The state after the bootstrap. -/
def start : State := State.empty.putAll bootstrapping.entries

theorem start_other {k : Key} (policy : ¬ k.kind = .policy) (config : ¬ k.kind = .config)
    (epoch : ¬ k.kind = .eligibilityEpoch) : start k = none :=
  bootstrapping.other policy config epoch

def nonce : Nonce := ⟨"nonce-0123456789", by decide⟩

theorem fence_keys : assertKeys (fenceInput nonce) ["nonce"] [] "fence input" = .ok () :=
  assertKeys_recordFields _ (by simp) (by simp)

theorem fence_nonce : assertPattern isNonce ((fenceInput nonce).get "nonce")
    "fence nonce must be 16 to 128 safe characters" = .ok nonce :=
  assertPattern_json nonce _

/-- The owner fences the fresh channel. -/
def fencing : Fencing start (context owner) config (fenceInput nonce) where
  identity := ⟨owner, [.all], true⟩
  nonce := nonce
  epoch := ⟨0, SafeInt.zero_valid⟩
  configured := by rfl
  keys := fence_keys
  nonce_eq := fence_nonce
  serving := rfl
  fresh := start_other (by simp) (by simp) (by simp)
  epoch_eq := by rw [State.epoch, start, bootstrapping.epochRecord_eq]; rfl

def fenceCommand : DomainCommand where
  commandId := name "fence"
  type := ⟨"fence", by decide⟩
  input := fenceInput nonce

theorem fence_digest : ∃ digest, idempotencyDigest fenceCommand = .ok digest := by
  obtain ⟨text, canonical⟩ := canonicalize_isOk
    (show canonicalizable (record [("type", jsonString fenceCommand.type.1),
      ("input", Value.obj fenceCommand.input)]) 0 = true by decide +kernel)
  exact ⟨_, by rw [idempotencyDigest, canonicalDigest, canonical]; rfl⟩

/-- The fence as a call of `execute`. -/
def fenceExecution {digest : String} (run : idempotencyDigest fenceCommand = .ok digest) :
    Execution start (context owner).toTx fenceCommand.toJson :=
  (Performs.fence fencing rfl).execution bootstrapping.config_eq' rfl fencing.configured run
    (start_other (by simp) (by simp) (by simp))

/-- The store after the bootstrap. -/
def store : Store := (putAll [] bootstrapping.entries).over Store.empty

theorem bootstrapped : Bootstrapped store := bootstrapping.reaches.1

theorem store_represents : Represents start store := bootstrapping.reaches.2.represents

def fenceCall : Call := ⟨(context owner).toTx, fenceCommand.toJson⟩

theorem fence_run {digest : String} (run : idempotencyDigest fenceCommand = .ok digest) :
    fenceCall.program.simulate store [] =
      .ok ((fenceExecution run).result, putAll [] (fenceExecution run).entries) :=
  (execute_ok store_represents).mpr (Or.inr ⟨fenceExecution run, rfl, rfl⟩)

end Demo

end Knowledger
