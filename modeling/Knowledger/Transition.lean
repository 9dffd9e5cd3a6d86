import Knowledger.Activation
import Knowledger.Publishing

/-!
# Transactions

What `bootstrap` and `execute` do on a typed state: `Performs` collects the accepted runs of
the seven commands, and a call of `execute` either replays a stored result or performs a
command and records it (`execute_ok`).
-/

namespace Knowledger

open Js Txn

variable [Sha256] {L : State} {s : Store} {w w' : Writes String Value}

/-! ## Commands -/

/-- An accepted command, with its result and the entries it writes. -/
inductive Performs (L : State) (ctx : Context) (config : DomainConfig) (command : DomainCommand) :
    Value → List Entry → Prop
  | republish (c : Republishing L ctx config command.input)
      (type : command.type.1 = "publish_revision") :
      Performs L ctx config command (publishResult "already_published" c.publication.revision) []
  | publish (c : Publishing L ctx config command.input)
      (type : command.type.1 = "publish_revision") :
      Performs L ctx config command (publishResult "published" c.publication.revision) c.entries
  | propose (c : Proposing L ctx config command.input) (type : command.type.1 = "propose") :
      Performs L ctx config command c.result c.entries
  | decide (c : Deciding L ctx config command.input) (type : command.type.1 = "decide") :
      Performs L ctx config command c.result c.entries
  | activate (c : Activating L ctx config command.input) (type : command.type.1 = "activate") :
      Performs L ctx config command c.result c.entries
  | withdraw (c : StatusChange L ctx config command.input .withdrawn)
      (type : command.type.1 = "withdraw") : Performs L ctx config command c.result c.entries
  | suspend (c : StatusChange L ctx config command.input .suspended)
      (type : command.type.1 = "suspend") : Performs L ctx config command c.result c.entries
  | fence (c : Fencing L ctx config command.input) (type : command.type.1 = "fence") :
      Performs L ctx config command c.result c.entries

section Command

variable {ctx : Context} {config : DomainConfig} {command : DomainCommand}

theorem performCommand_ok (h : Represents L (w.over s)) (valid : config.Valid) {r : Value} :
    (performCommand ctx config command).simulate s w = .ok (r, w') ↔
      ∃ es, Performs L ctx config command r es ∧ w' = putAll w es := by
  constructor
  · intro run
    unfold performCommand at run
    split at run
    case h_1 type =>
      rcases (executePublish_ok h).mp run with ⟨c, rfl, rfl⟩ | ⟨c, rfl, rfl⟩
      · exact ⟨_, .republish c type, rfl⟩
      · exact ⟨_, .publish c type, rfl⟩
    case h_2 type =>
      obtain ⟨c, rfl, rfl⟩ := (executePropose_ok h valid).mp run
      exact ⟨_, .propose c type, rfl⟩
    case h_3 type =>
      obtain ⟨c, rfl, rfl⟩ := (executeDecide_ok h).mp run
      exact ⟨_, .decide c type, rfl⟩
    case h_4 type =>
      obtain ⟨c, rfl, rfl⟩ := (executeActivate_ok h valid).mp run
      exact ⟨_, .activate c type, rfl⟩
    case h_5 type =>
      obtain ⟨c, rfl, rfl⟩ := (executeStatusChange_ok h).mp run
      exact ⟨_, .withdraw c type, rfl⟩
    case h_6 type =>
      obtain ⟨c, rfl, rfl⟩ := (executeStatusChange_ok h).mp run
      exact ⟨_, .suspend c type, rfl⟩
    case h_7 type =>
      obtain ⟨c, rfl, rfl⟩ := (executeFence_ok h).mp run
      exact ⟨_, .fence c type, rfl⟩
    case h_8 => simp only [simulate_query_ok, reject_ok, false_and] at run
  · rintro ⟨_, performs, rfl⟩
    cases performs with
    | republish c type =>
        rw [performCommand, type]
        exact (executePublish_ok h).mpr (Or.inl ⟨c, rfl, rfl⟩)
    | publish c type =>
        rw [performCommand, type]
        exact (executePublish_ok h).mpr (Or.inr ⟨c, rfl, rfl⟩)
    | propose c type =>
        rw [performCommand, type]
        exact (executePropose_ok h valid).mpr ⟨c, rfl, rfl⟩
    | decide c type =>
        rw [performCommand, type]
        exact (executeDecide_ok h).mpr ⟨c, rfl, rfl⟩
    | activate c type =>
        rw [performCommand, type]
        exact (executeActivate_ok h valid).mpr ⟨c, rfl, rfl⟩
    | withdraw c type =>
        rw [performCommand, type]
        exact (executeStatusChange_ok h).mpr ⟨c, rfl, rfl⟩
    | suspend c type =>
        rw [performCommand, type]
        exact (executeStatusChange_ok h).mpr ⟨c, rfl, rfl⟩
    | fence c type =>
        rw [performCommand, type]
        exact (executeFence_ok h).mpr ⟨c, rfl, rfl⟩

theorem Performs.type {r : Value} {es : List Entry} (performs : Performs L ctx config command r es) :
    command.type.1 ∈ commandTypes := by
  cases performs <;> rename_i type <;> rw [type] <;> decide

/-- The result of a command names its status. -/
theorem Performs.status {r : Value} {es : List Entry}
    (performs : Performs L ctx config command r es) :
    ∃ fields status, r = .obj fields ∧ Fields.get fields "status" = some (jsonString status) := by
  cases performs <;> exact ⟨_, _, rfl, rfl⟩

end Command

/-! ## Replays -/

def State.idempotency (L : State) (orgId commandId : Id) : Option IdempotencyRecord :=
  (L (.idempotency orgId commandId)).map fun r : Key.Record (.idempotency orgId commandId) => r.1

theorem State.idempotency_eq {orgId commandId : Id} {r : IdempotencyRecord} :
    L.idempotency orgId commandId = some r ↔ ∃ h, L (.idempotency orgId commandId) = some ⟨r, h⟩ :=
  map_val_eq

/-- The record is of the same request of the same actor. -/
def IdempotencyRecord.SameRequest (r : IdempotencyRecord) (actor : Actor) (command : DomainCommand)
    (digest : String) : Prop :=
  r.commandDigest = digest ∧ r.commandType = command.type ∧ r.actor = actor

omit [Sha256] in
theorem isActor_stored (a b : Actor) :
    isActor (some a.toJson.normalize) b = .ok (decide (a = b)) := by
  have same : (isString (some (jsonString a.orgId.1)) b.orgId.1 &&
      isString (some (jsonString a.actorId.1)) b.actorId.1 &&
      isString (some (jsonString a.kind.text)) b.kind.text) = decide (a = b) := by
    obtain ⟨org, actor, kind⟩ := a
    obtain ⟨org', actor', kind'⟩ := b
    rw [Bool.eq_iff_iff]
    simp only [isString_json, Bool.and_eq_true, beq_iff_eq, decide_eq_true_eq, Actor.mk.injEq,
      Subtype.val_inj, and_assoc]
    refine and_congr_right fun _ => and_congr_right fun _ => ?_
    cases kind <;> cases kind' <;> simp [ActorKind.text]
  rw [← same]
  simp [isActor, Actor.toJson, record, Fields.get_normalize]

/-- What a `command_id` used for another request fails with. -/
def idempotencyConflict {α : Type} : Except Thrown α :=
  checked (fail "IDEMPOTENCY_CONFLICT"
    "command_id is already bound to another actor or request payload" conflict)

instance (r : IdempotencyRecord) (actor : Actor) (command : DomainCommand) (digest : String) :
    Decidable (r.SameRequest actor command digest) :=
  inferInstanceAs (Decidable (r.commandDigest = digest ∧ r.commandType = command.type ∧
    r.actor = actor))

omit [Sha256] in
/-- A stored record answers the same request and refuses any other. -/
theorem replay_stored {r : IdempotencyRecord} (valid : r.Valid) (actor : Actor)
    (command : DomainCommand) (digest : String) :
    (replay actor command digest r.toJson.normalize).eval s =
      if r.SameRequest actor command digest then .ok r.result else idempotencyConflict := by
  obtain ⟨text, canonical⟩ := valid.cloned.1
  have clone : cloneCanonical r.result.normalize = .ok r.result := by
    rw [valid.cloned.2]
    exact cloneCanonical_iff.mpr ⟨⟨text, canonical⟩, valid.cloned.2.symm⟩
  obtain ⟨fields, written⟩ : ∃ fields : Fields, r.toJson = .obj fields := ⟨_, rfl⟩
  have get : ∀ name, fields.normalize.get name = (fields.get name).map Value.normalize :=
    Fields.get_normalize fields
  have keys : assertKeys fields.normalize ["record_type", "command_id", "command_type",
      "command_digest", "actor", "result", "tx_id"] [] "idempotency record" = .ok () := by
    rw [ok_congr (assertKeys_normalize _ fields _ _), ← Value.obj.inj written]
    exact assertKeys_recordFields _ (by simp) (by simp)
  have type : fields.get "record_type" = some (jsonString "IdempotencyRecord") := by
    rw [← Value.obj.inj written]; rfl
  have digestField : fields.get "command_digest" = some (jsonString r.commandDigest) := by
    rw [← Value.obj.inj written]; rfl
  have typeField : fields.get "command_type" = some (jsonString r.commandType.1) := by
    rw [← Value.obj.inj written]; rfl
  have actorField : fields.get "actor" = some r.actor.toJson := by
    rw [← Value.obj.inj written]; rfl
  have resultField : fields.get "result" = some r.result := by
    rw [← Value.obj.inj written]; rfl
  have read : assertRecord (some r.toJson.normalize) "idempotency record" = .ok fields.normalize := by
    rw [written, Value.normalize_obj]; rfl
  simp only [replay, Query.eval_bind, eval_check, read, checked_value, ok_bind, keys, get, type,
    digestField, typeField, actorField, resultField, Option.map_some, normalize_jsonString,
    isString_json, isActor_stored, beq_self_eq_true, ensure_true, Option.getD_some, clone]
  by_cases request : r.commandDigest = digest ∧ r.commandType = command.type
  · have same : (r.commandDigest == digest && r.commandType.1 == command.type.1) = true := by
      simp [request.1, request.2]
    simp only [same, if_true, Query.eval_bind, Query.eval_lift, ok_bind, eval_check]
    by_cases actors : r.actor = actor
    · rw [if_pos (show r.SameRequest actor command digest from ⟨request.1, request.2, actors⟩),
        decide_eq_true actors]
      rfl
    · rw [if_neg (fun h : r.SameRequest actor command digest => actors h.2.2),
        decide_eq_false actors]
      rfl
  · have differs : (r.commandDigest == digest && r.commandType.1 == command.type.1) = false := by
      simpa [Subtype.ext_iff] using request
    rw [if_neg (fun h : r.SameRequest actor command digest => request ⟨h.1, h.2.1⟩)]
    simp only [differs, Bool.false_eq_true, if_false]
    rfl

/-! ## Execution -/

/-- A call of `execute` that passes the checks before the idempotency record is looked
up. -/
structure Admitted (L : State) (ctx : TxContext) (command : Value) where
  context : Context
  request : DomainCommand
  config : DomainConfig
  identity : ConfigIdentity
  digest : String
  context_eq : assertContext ctx = .ok context
  request_eq : validateCommand command = .ok request
  config_eq : L.config = some config
  channel : context.channelId = config.channelId
  identity_eq : configuredIdentity config context.actor = .ok identity
  digest_eq : idempotencyDigest request = .ok digest

/-- The record of a performed command. -/
def idempotencyRecord (ctx : Context) (request : DomainCommand) (digest : String) (result : Value) :
    IdempotencyRecord :=
  { commandId := request.commandId
    commandType := request.type
    commandDigest := digest
    actor := ctx.actor
    result := result.normalize
    txId := ctx.txId }

/-- A call of `execute` that performs its command. -/
structure Execution (L : State) (ctx : TxContext) (command : Value) extends
    Admitted L ctx command where
  result : Value
  performed : List Entry
  fresh : L (.idempotency context.actor.orgId request.commandId) = none
  performs : Performs L context config request result performed
  resultCanonical : ∃ text, canonicalize result = .ok text
  recordCanonical : ∃ text, canonicalize
    (idempotencyRecord context request digest result).toJson = .ok text

/-- A call of `execute` that finds the result of the same request. -/
structure Replay (L : State) (ctx : TxContext) (command : Value) extends
    Admitted L ctx command where
  stored : IdempotencyRecord
  found : L.idempotency context.actor.orgId request.commandId = some stored
  same : stored.SameRequest context.actor request digest

section Execute

variable {ctx : TxContext} {command : Value}

def Execution.record (c : Execution L ctx command) : IdempotencyRecord :=
  idempotencyRecord c.context c.request c.digest c.result

theorem Execution.record_valid (c : Execution L ctx command) : c.record.Valid where
  digest := by
    obtain ⟨text, _, same⟩ := bind_ok.mp c.digest_eq
    rw [show c.record.commandDigest = c.digest from rfl, ← Except.ok.inj same]
    exact isDigest_sha256 text
  type := c.performs.type
  status := by
    obtain ⟨fields, status, result, field⟩ := c.performs.status
    refine ⟨Fields.normalize fields, .wellFormed status, ?_, ?_⟩
    · rw [show c.record.result = c.result.normalize from rfl, result, Value.normalize_obj]
    · rw [Fields.get_normalize, field, Option.map_some, normalize_jsonString]
      rfl
  canonical := c.recordCanonical
  cloned := ⟨by
    obtain ⟨text, canonical⟩ := c.resultCanonical
    exact ⟨text, (canonicalize_normalize c.result).trans canonical⟩,
    Value.normalize_normalize _⟩

/-- Everything the call writes. -/
def Execution.entries (c : Execution L ctx command) : List Entry :=
  c.performed ++ [⟨.idempotency c.context.actor.orgId c.request.commandId,
    ⟨c.record, c.record_valid, rfl, rfl⟩⟩]

theorem State.config_valid {config : DomainConfig} (found : L.config = some config) :
    config.Valid :=
  (State.config_eq.mp found).elim fun h _ => h.1

theorem execute_ok (h : Represents L s) {r : Value} :
    (execute ctx command).simulate s [] = .ok (r, w') ↔
      (∃ c : Replay L ctx command, r = c.stored.result ∧ w' = []) ∨
      ∃ c : Execution L ctx command, r = c.result ∧ w' = putAll [] c.entries := by
  have empty : Represents L (Writes.over [] s) := by rwa [Writes.over_nil]
  have read : ∀ orgId commandId : Id, present (Writes.over [] s (keyFor.idempotency orgId.1
      commandId.1)) = (L.idempotency orgId commandId).map fun r => r.toJson.normalize := by
    intro orgId commandId
    rw [show keyFor.idempotency orgId.1 commandId.1 = (Key.idempotency orgId commandId).text
      from rfl, empty.read, State.idempotency, Option.map_map]
    rfl
  simp only [execute, Program.simulate_bind_ok, simulate_query_ok, simulate_check_ok,
    and_assoc, exists_and_left, exists_eq_left, ensure_ok, Unique.exists_iff,
    PUnit.default_eq_unit, eval_getRecord, Except.ok.injEq, exists_eq_left', beq_iff_eq,
    empty.read_config, read]
  constructor
  · rintro ⟨context, contextRun, request, requestRun, config, configRead, channel, identity,
      identityRun, digest, digestRun, run⟩
    let admitted : Admitted L ctx command := ⟨context, request, config, identity, digest,
      contextRun, requestRun, configRead, channel, identityRun, digestRun⟩
    cases found : L.idempotency context.actor.orgId request.commandId with
    | some stored =>
        obtain ⟨valid, _⟩ := State.idempotency_eq.mp found
        simp only [found, Option.map_some, simulate_query_ok, replay_stored valid.1] at run
        by_cases same : stored.SameRequest context.actor request digest
        · rw [if_pos same] at run
          obtain ⟨result, rfl⟩ := run
          exact Or.inl ⟨⟨admitted, stored, found, same⟩, (Except.ok.inj result).symm, rfl⟩
        · rw [if_neg same] at run
          cases run.1
    | none =>
        have valid : config.Valid := State.config_valid configRead
        simp only [found, Option.map_none, Program.simulate_bind_ok, performCommand_ok empty valid,
          simulate_check_ok, cloneCanonical_iff, putClone_ok, simulate_pure_ok] at run
        obtain ⟨result, _, ⟨es, performs, rfl⟩, _, _, ⟨⟨canonical, rfl⟩, rfl⟩, _, _,
          ⟨recorded, rfl⟩, rfl, rfl⟩ := run
        refine Or.inr ⟨⟨admitted, result, es, Option.map_eq_none_iff.mp found, performs, canonical,
          recorded⟩, rfl, ?_⟩
        rw [Execution.entries, putAll_append]
        rfl
  · rintro (⟨c, rfl, rfl⟩ | ⟨c, rfl, rfl⟩)
    · refine ⟨_, c.context_eq, _, c.request_eq, _, c.config_eq, c.channel, _, c.identity_eq, _,
        c.digest_eq, ?_⟩
      obtain ⟨valid, _⟩ := State.idempotency_eq.mp c.found
      simp only [c.found, Option.map_some, simulate_query_ok, replay_stored valid.1,
        if_pos c.same, and_self]
    · refine ⟨_, c.context_eq, _, c.request_eq, _, c.config_eq, c.channel, _, c.identity_eq, _,
        c.digest_eq, ?_⟩
      have valid : c.config.Valid := State.config_valid c.config_eq
      have fresh : L.idempotency c.context.actor.orgId c.request.commandId = none :=
        Option.map_eq_none_iff.mpr c.fresh
      simp only [fresh, Option.map_none, Program.simulate_bind_ok, performCommand_ok empty valid,
        simulate_check_ok, cloneCanonical_iff, putClone_ok, simulate_pure_ok]
      exact ⟨_, _, ⟨_, c.performs, rfl⟩, _, _, ⟨⟨c.resultCanonical, rfl⟩, rfl⟩, (), _,
        ⟨c.recordCanonical, rfl⟩, rfl, putAll_append _ _ _⟩

end Execute

/-! ## Bootstrapping -/

/-- A policy that may be stored. -/
def AgreementPolicy.Storable (p : AgreementPolicy) : Prop :=
  p.Valid ∧ ∃ text, canonicalize p.toJson = .ok text

def policyEntry (p : AgreementPolicy) (storable : p.Storable) : Entry :=
  ⟨.policy p.policyId p.policyVersion, ⟨p, storable.1, storable.2, rfl, rfl⟩⟩

theorem putPolicies_ok {policies : List AgreementPolicy} (valid : ∀ p ∈ policies, p.Valid)
    {u : Unit} :
    (putPolicies policies).simulate s w = .ok (u, w') ↔
      ∃ storable : ∀ p ∈ policies, p.Storable,
        w' = putAll w (policies.pmap policyEntry storable) := by
  induction policies generalizing w with
  | nil => simp [putPolicies, simulate_pure_ok, eq_comm]
  | cons p policies ih =>
      have rest : ∀ q ∈ policies, q.Valid := fun q mem => valid q (List.mem_cons_of_mem _ mem)
      simp only [putPolicies, Program.simulate_bind_ok, putClone_ok, and_assoc, exists_and_left,
        exists_eq_left, Unique.exists_iff, ih rest]
      constructor
      · rintro ⟨canonical, storable, rfl⟩
        exact ⟨List.forall_mem_cons.mpr ⟨⟨valid p List.mem_cons_self, canonical⟩, storable⟩, rfl⟩
      · rintro ⟨storable, rfl⟩
        have split := List.forall_mem_cons.mp storable
        exact ⟨split.1.2, split.2, rfl⟩

/-- An accepted `bootstrap`. -/
structure Bootstrapping (L : State) (ctx : TxContext) (configInput : Value) where
  context : Context
  config : DomainConfig
  context_eq : assertContext ctx = .ok context
  human : context.actor.kind = .human
  channel : isString ((isRecord configInput).bind fun fields => fields.get "channel_id")
    context.channelId.1 = true
  config_eq : validateConfig configInput = .ok config
  fresh : L .config = none
  canonical : ∃ text, canonicalize config.toJson = .ok text
  storable : ∀ p ∈ config.policies, p.Storable

section Bootstrap

variable {ctx : TxContext} {configInput : Value}

theorem Bootstrapping.valid (c : Bootstrapping L ctx configInput) : c.config.Valid :=
  validateConfig_valid _ _ c.config_eq

def Bootstrapping.entries (c : Bootstrapping L ctx configInput) : List Entry :=
  ⟨.config, ⟨c.config, c.valid, c.canonical⟩⟩ :: ⟨.eligibilityEpoch, (⟨0, SafeInt.zero_valid⟩ : SafeInt 0)⟩ ::
    c.config.policies.pmap policyEntry c.storable

def Bootstrapping.result (c : Bootstrapping L ctx configInput) : Value :=
  record [("status", jsonString "bootstrapped"),
    ("channel_id", jsonString c.config.channelId.1),
    ("config_version", c.config.configVersion.toJson),
    ("membership_epoch", jsonNat c.config.membershipEpoch.1),
    ("role_binding_version", jsonNat c.config.roleBindingVersion.1)]

theorem bootstrap_ok (h : Represents L (w.over s)) {r : Value} :
    (bootstrap ctx configInput).simulate s w = .ok (r, w') ↔
      ∃ c : Bootstrapping L ctx configInput, r = c.result ∧ w' = putAll w c.entries := by
  have read : present (w.over s keyFor.config) = none ↔ L .config = none := h.read_none .config
  simp only [bootstrap, Program.simulate_bind_ok, simulate_query_ok, simulate_check_ok,
    and_assoc, exists_and_left, exists_eq_left, ensure_ok, Unique.exists_iff,
    PUnit.default_eq_unit, eval_getRecord, Except.ok.injEq, exists_eq_left', beq_iff_eq,
    Option.isNone_iff_eq_none, read, putClone_ok, put_ok]
  constructor
  · rintro ⟨context, contextRun, human, channel, config, configRun, fresh, canonical, _, policies,
      run⟩
    have valid : config.Valid := validateConfig_valid _ _ configRun
    obtain ⟨storable, rfl⟩ := (putPolicies_ok fun p mem => (valid.policies p mem).valid).mp policies
    obtain ⟨rfl, rfl⟩ := simulate_pure_ok.mp run
    exact ⟨⟨context, config, contextRun, human, channel, configRun, fresh, canonical, storable⟩,
      rfl, rfl⟩
  · rintro ⟨c, rfl, rfl⟩
    exact ⟨_, c.context_eq, c.human, c.channel, _, c.config_eq, c.fresh, c.canonical, _,
      (putPolicies_ok fun p mem => (c.valid.policies p mem).valid).mpr ⟨c.storable, rfl⟩,
      simulate_pure_ok.mpr ⟨rfl, rfl⟩⟩

end Bootstrap

end Knowledger
