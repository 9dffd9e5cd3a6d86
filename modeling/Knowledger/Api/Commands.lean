import Knowledger.Api.Paging
import Knowledger.Storage.DeliveryContract

/-!
# Descriptions of private commands

The private store keeps an actor's commands, and the service describes each from the ledger, the
outbox of the transport and the outcome it remembers, in this order.  The store is the actor's own,
the ledger binds a `command_id` for the whole organization, so a record may meet a command that is
not its own: `commands_described` says that a store is described just when none of its records does.
-/

namespace Knowledger.Api.Commands

open Js Txn

section Service

variable [Sha256] {C : Type}

/-! ## Private records -/

/-- The outcome that the service remembers. -/
inductive Remembered
  | pending
  | rejected
  deriving DecidableEq

structure Tracking where
  createdAt : Value
  status : Remembered
  code : Option Value

/-- A record of the private store that `storedCommand` let through. -/
structure StoredCommand where
  id : Id
  type : String
  input : Value
  /-- `idempotencyDigest(stored.command)` -/
  digest : String
  tracking : Option Tracking

/-- A row of the private store: `command_id` was checked when it was put. -/
structure Row where
  id : Id
  value : Value

def storedTypes : List String :=
  ["publish_revision", "propose", "decide", "activate", "withdraw", "suspend"]

def property (value : Option Value) (name : String) : Option Value :=
  value.bind fun v => (isRecord v).bind fun fields => Fields.get fields name

/-- `/^[a-f0-9]{64}$/.test(value)` -/
def isRequestDigest (value : Option Value) : Bool :=
  match value.bind Storage.tested with
  | some s => s.toList.length == 64 && s.toList.all hexChar
  | none => false

/-- `/^[A-Z][A-Z0-9_]{1,63}$/.test(value)` -/
def isErrorCode (value : Value) : Bool :=
  match (Storage.tested value).map String.toList with
  | some (c :: rest) => c.isUpper && Nat.ble 1 rest.length && Nat.ble rest.length 63 &&
      rest.all fun d => d.isUpper || d.isDigit || d == '_'
  | _ => false

def notFound {α : Type} : Except ApiError α :=
  .error ⟨"NOT_FOUND", "요청을 찾을 수 없거나 접근할 수 없습니다.", 404, false⟩

def corrupt {α : Type} (message : String) : Except ApiError α :=
  .error ⟨"PRIVATE_COMMAND_CORRUPT", message, 503, true⟩

/-- The tracking of a record; `finite` is `Number.isFinite(Date.parse(value))`. -/
def trackingOf (finite : Option Value → Bool) (value : Value) : Option Tracking := do
  let fields ← isRecord value
  let status ←
    if isString (fields.get "status") "pending" then some Remembered.pending
    else if isString (fields.get "status") "rejected" then some Remembered.rejected
    else none
  if !finite (fields.get "created_at") then none
  if !(fields.get "code").all isErrorCode then none
  return { createdAt := (fields.get "created_at").getD .null, status, code := fields.get "code" }

/-- The body of `storedCommand` after the record was found. -/
def parseStored (finite : Option Value → Bool) (id : Id) (stored : Value) :
    Option StoredCommand := do
  let command ← property (some stored) "command"
  if !isRequestDigest (property (some stored) "request_digest") then none
  if !isString (property (some command) "command_id") id.1 then none
  let type ← storedTypes.find? fun type => isString (property (some command) "type") type
  let input ← property (some command) "input"
  let digest ← (canonicalDigest (record [("type", jsonString type), ("input", input)])).toOption
  match property (some stored) "tracking" with
  | none => return { id, type, input, digest, tracking := none }
  | some tracking => return { id, type, input, digest, tracking := ← trackingOf finite tracking }

/-- `if (!stored)`, for a JSON value. -/
def falsy : Value → Bool
  | .null => true
  | .bool b => !b
  | .num n => n == .int 0 || n == .nan
  | .str s => s.units.isEmpty
  | _ => false

structure OutboxAttempt where
  commandId : String
  actorOrgId : String
  payloadDigest : String
  status : String

/-- What an operation on the ledger throws. -/
inductive Failure
  /-- An error with a code: of the service or of the ledger. -/
  | coded (error : ApiError)
  | plain (message : String)

/-- The ledger as it is read: the projected state, and the checkpoint of a transaction. -/
structure View (C : Type) where
  store : Store
  checkpoints : String → Option C

/-- The transport of a Fabric ledger: the actors it signs for, the attempts of its outbox by
organization and `command_id`, and what asking a peer leaves of these and of the view. -/
structure Fabric (C : Type) where
  routes : List Actor
  attempts : String → String → Option (List OutboxAttempt)
  recovered : String → String → Except Failure (Option (List OutboxAttempt))
  refreshed : Except Failure (View C)

structure Ledger (C : Type) extends View C where
  /-- No transport for the local simulation. -/
  fabric : Option (Fabric C)

/-- `ledger.read(keyFor.idempotency(actor.org_id, command_id))`, if it is truthy. -/
def View.idempotency (view : View C) (actor : Actor) (command : StoredCommand) : Option Value :=
  (view.store (keyFor.idempotency actor.orgId.1 command.id.1)).filter fun value => !falsy value

/-- The actor, digest and type that both readers compare. -/
def boundTo (committed : Value) (actor : Actor) (command : StoredCommand) : Bool :=
  let owner := property (some committed) "actor"
  isString (property owner "org_id") actor.orgId.1 &&
    isString (property owner "actor_id") actor.actorId.1 &&
    isString (property owner "kind") actor.kind.text &&
    isString (property (some committed) "command_digest") command.digest &&
    isString (property (some committed) "command_type") command.type

def View.checkpointForTransaction (view : View C) (committed : Value) : Except Failure C :=
  match property (some committed) "tx_id" with
  | some (.str (.wellFormed text)) =>
    match view.checkpoints text with
    | some checkpoint => .ok checkpoint
    | none => .error (.plain "Committed transaction checkpoint is missing")
  | _ => .error (.plain "Committed transaction checkpoint is missing")

def isText : Option Value → Bool
  | some (.str _) => true
  | _ => false

def idempotencyConflict : ApiError :=
  ⟨"IDEMPOTENCY_CONFLICT", "원장 기록이 이 요청의 사용자 또는 내용과 일치하지 않습니다.", 409, false⟩

/-- `committedCommand` of the service. -/
def View.committedCommand (view : View C) (actor : Actor) (command : StoredCommand) :
    Except Failure (Option C) :=
  match view.idempotency actor command with
  | none => .ok none
  | some committed =>
    if isString (property (some committed) "record_type") "IdempotencyRecord" &&
        isString (property (some committed) "command_id") command.id.1 &&
        boundTo committed actor command && isText (property (some committed) "tx_id") then
      return some (← view.checkpointForTransaction committed)
    else .error (.coded idempotencyConflict)

/-- `isActor` of a record's actor. -/
def hasActor (committed : Value) : Bool :=
  let owner := property (some committed) "actor"
  isText (property owner "org_id") && isText (property owner "actor_id") &&
    (isString (property owner "kind") "human" || isString (property owner "kind") "agent")

/-- `committed` of the Fabric ledger. -/
def View.committed (view : View C) (actor : Actor) (command : StoredCommand) :
    Except Failure (Option C) :=
  match view.idempotency actor command with
  | none => .ok none
  | some committed =>
    if !(hasActor committed && (property (some committed) "command_digest").isSome &&
        (property (some committed) "command_type").isSome &&
        (property (some committed) "result").isSome && isText (property (some committed) "tx_id"))
    then .error (.coded ⟨"PROJECTION_INVALID",
      "검증된 명령 기록의 구조가 올바르지 않습니다.", 503, false⟩)
    else if boundTo committed actor command then
      return some (← view.checkpointForTransaction committed)
    else .error (.coded ⟨"IDEMPOTENCY_CONFLICT",
      "같은 command_id가 다른 사용자 또는 요청에 사용되었습니다.", 409, false⟩)

/-! ## Observations -/

inductive Observed (C : Type)
  | committed (checkpoint : C)
  | pending
  | rejected (code : String)
  | cancelled (code : String)

def attemptStatuses : List String :=
  ["pending", "endorsed", "acknowledged", "unknown", "valid", "invalid", "reconciled", "cancelled"]

/-- An attempt of this very command. -/
def OutboxAttempt.bound (attempt : OutboxAttempt) (actor : Actor) (command : StoredCommand) : Bool :=
  attempt.commandId == command.id.1 && attempt.actorOrgId == actor.orgId.1 &&
    attempt.payloadDigest == command.digest && attemptStatuses.contains attempt.status

def OutboxAttempt.outstanding (attempt : OutboxAttempt) : Bool :=
  ["pending", "endorsed", "acknowledged", "unknown"].contains attempt.status

def validate (attempts : List OutboxAttempt) (actor : Actor) (command : StoredCommand) :
    Except Failure Unit :=
  if attempts.all (·.bound actor command) then .ok ()
  else .error (.plain "Outbox command binding is invalid")

def observedOf (attempts : List OutboxAttempt) : Observed C :=
  if attempts.any fun attempt => !(["invalid", "cancelled"].contains attempt.status) then .pending
  else if attempts.all (·.status == "cancelled") then .cancelled "AUTHORIZATION_CANCELLED"
  else .rejected "LEDGER_CONFLICT"

/-- `observeCommand` of the transport. -/
def Fabric.observe (fabric : Fabric C) (actor : Actor) (command : StoredCommand)
    (queryPeer : Bool) : Except Failure (Option (Observed C)) :=
  match (fabric.attempts actor.orgId.1 command.id.1).getD [] with
  | [] => .ok none
  | attempts => do
    validate attempts actor command
    if 128 < attempts.length then return some .pending
    else if queryPeer && attempts.any (·.outstanding) then
      match ← fabric.recovered actor.orgId.1 command.id.1 with
      | none => .error (.plain "Cannot read properties of undefined (reading 'some')")
      | some attempts => do
        validate attempts actor command
        return some (observedOf attempts)
    else return some (observedOf attempts)

/-- The view that `observeCommand` reads last. -/
def Ledger.lastView (ledger : Ledger C) (fabric : Fabric C) (queryPeer : Bool) :
    Except Failure (View C) :=
  if queryPeer then fabric.refreshed else .ok ledger.toView

/-- `observeCommand` of the Fabric ledger. -/
def Ledger.observeCommand (ledger : Ledger C) (fabric : Fabric C) (actor : Actor)
    (command : StoredCommand) (queryPeer : Bool) : Except Failure (Option (Observed C)) :=
  if actor ∉ fabric.routes then
    .error (.coded ⟨"SIGNER_FORBIDDEN", "인증된 서명 신원이 없는 사용자입니다.", 403, false⟩)
  else do
    match ← ledger.committed actor command with
    | some checkpoint => return some (.committed checkpoint)
    | none =>
      let observed ← fabric.observe actor command queryPeer
      let view ← ledger.lastView fabric queryPeer
      match ← view.committed actor command with
      | some checkpoint => return some (.committed checkpoint)
      | none => return observed

/-! ## Descriptions -/

inductive CommandStatus
  | committed
  | pending
  | rejected
  | cancelled
  deriving DecidableEq

def Observed.status : Observed C → CommandStatus
  | .committed _ => .committed
  | .pending => .pending
  | .rejected _ => .rejected
  | .cancelled _ => .cancelled

def Observed.code : Observed C → Option Value
  | .rejected code | .cancelled code => some (jsonString code)
  | _ => none

def Observed.checkpoint : Observed C → Option C
  | .committed checkpoint => some checkpoint
  | _ => none

def Remembered.status : Remembered → CommandStatus
  | .pending => .pending
  | .rejected => .rejected

/-- `a ?? b` -/
def coalesce : Option Value → Option Value → Option Value
  | none, b | some .null, b => b
  | a, _ => a

def StoredCommand.target (command : StoredCommand) : Option Value :=
  let input := some command.input
  let target :=
    if command.type = "publish_revision" then property (property input "revision") "revision_digest"
    else if command.type = "propose" then property input "revision_digest"
    else if command.type = "decide" then property (property input "decision") "proposal_id"
    else coalesce (property input "proposal_id") (property input "agreement_id")
  if isText target then target else none

/-- The transactions that the calls commit. -/
def committedTxs : List Call → Store → List String
  | [], _ => []
  | c :: calls, s =>
    (match c.program.simulate s [], assertContext c.ctx with
      | .ok (_, _ :: _), .ok ctx => [ctx.txId.1]
      | _, _ => []) ++ committedTxs calls (c.commit s)

/-- The view of a bootstrapped ledger after the calls, with a checkpoint for each transaction. -/
structure View.Of (view : View C) (s₀ : Store) (calls : List Call) : Prop where
  bootstrapped : Bootstrapped s₀
  store : view.store = runAll calls s₀
  checkpoints : ∀ tx ∈ committedTxs calls s₀, ∃ checkpoint, view.checkpoints tx = some checkpoint

/-- Every idempotency record of a state names a transaction of the list. -/
def Named (L : State) (txs : List String) : Prop :=
  ∀ orgId commandId r, L.idempotency orgId commandId = some r → r.txId.1 ∈ txs

theorem State.idempotency_putAll {L : State} {ctx : TxContext} {command : Value}
    (x : Execution L ctx command) {orgId commandId : Id} {r : IdempotencyRecord}
    (stored : (L.putAll x.entries).idempotency orgId commandId = some r) :
    L.idempotency orgId commandId = some r ∨ r.txId = x.context.txId := by
  by_cases same : orgId = x.context.actor.orgId ∧ commandId = x.request.commandId
  · obtain ⟨rfl, rfl⟩ := same
    rw [x.recorded] at stored
    exact .inr (congrArg IdempotencyRecord.txId (Option.some.inj stored)).symm
  · left
    obtain ⟨valid, inside⟩ := State.idempotency_eq.mp stored
    rw [Execution.entries, State.putAll_append, State.putAll_cons, State.putAll_nil,
      State.set_of_ne, x.performs.idempotency] at inside
    · exact State.idempotency_eq.mpr ⟨valid, inside⟩
    · intro equal
      exact same (by simpa using equal)

theorem Holds.runAll_named {s : Store} {L : State} {config : DomainConfig} {txs : List String}
    (h : Holds s L config) (named : Named L txs) (calls : List Call) :
    ∃ M, Holds (runAll calls s) M config ∧ Named M (txs ++ committedTxs calls s) := by
  induction calls generalizing s L txs with
  | nil => exact ⟨L, h, by rwa [committedTxs, List.append_nil]⟩
  | cons c calls ih =>
      rw [committedTxs, ← List.append_assoc]
      unfold runAll
      cases run : c.program.simulate s [] with
      | error e =>
          have stays : c.commit s = s := by rw [Call.commit, commit, run]
          rw [stays]
          simpa using ih h named
      | ok outcome =>
          obtain ⟨result, w⟩ := outcome
          have next : c.commit s = w.over s := by rw [Call.commit, commit, run]
          rw [next]
          rcases (execute_ok h.represents).mp run with ⟨replay, rfl, rfl⟩ | ⟨x, rfl, rfl⟩
          · rw [Writes.over_nil]
            simpa using ih h named
          · obtain ⟨e, rest, writes⟩ := x.writes
            refine ih ⟨represents_putAll h.represents _, x.core h.core, x.live h.core h.live⟩ ?_
            intro orgId commandId r stored
            rw [writes, x.context_eq]
            rcases State.idempotency_putAll x stored with before | here
            · exact List.mem_append_left _ (named _ _ _ before)
            · rw [here]
              exact List.mem_append_right _ List.mem_cons_self

section Views

variable {view : View C} {s₀ : Store} {calls : List Call}

/-- The record of a view is typed, and its transaction has a checkpoint. -/
theorem View.Of.reads (of : view.Of s₀ calls) : ∃ L config, Holds view.store L config ∧
    ∀ orgId commandId r, L.idempotency orgId commandId = some r →
      ∃ checkpoint, view.checkpoints r.txId.1 = some checkpoint := by
  obtain ⟨ctx, input, result, w, run, start⟩ := of.bootstrapped
  have empty : Represents State.empty (Writes.over [] Store.empty) := by
    rw [Writes.over_nil]
    exact represents_empty
  obtain ⟨c, rfl, rfl⟩ := (bootstrap_ok empty).mp run
  have holds : Holds s₀ (State.empty.putAll c.entries) c.config := by
    rw [start]
    exact ⟨represents_putAll represents_empty _, c.core, c.live⟩
  have fresh : Named (State.empty.putAll c.entries) [] := by
    intro orgId commandId r stored
    obtain ⟨valid, inside⟩ := State.idempotency_eq.mp stored
    rw [c.other (by simp) (by simp) (by simp)] at inside
    cases inside
  obtain ⟨M, held, named⟩ := Holds.runAll_named holds fresh calls
  rw [← of.store] at held
  exact ⟨M, _, held, fun orgId commandId r stored => of.checkpoints _ (named _ _ _ stored)⟩

/-! ## Reading the record -/

/-- The record is of this actor and this content. -/
def Own (r : IdempotencyRecord) (actor : Actor) (command : StoredCommand) : Prop :=
  r.actor = actor ∧ r.commandDigest = command.digest ∧ r.commandType.1 = command.type

/-- No other actor's and no other content's command holds the `command_id` in the view. -/
def OwnIn (view : View C) (actor : Actor) (command : StoredCommand) : Prop :=
  ∀ r : IdempotencyRecord, view.store (keyFor.idempotency actor.orgId.1 command.id.1) =
    some r.toJson.normalize → Own r actor command

omit [Sha256] in
theorem property_normalize (v : Value) (name : String) :
    property (some v.normalize) name = (property (some v) name).map Value.normalize := by
  cases v with
  | obj fields =>
      rw [Value.normalize_obj]
      exact Fields.get_normalize fields name
  | _ => simp [property, isRecord]

omit [Sha256] in
theorem boundTo_record (r : IdempotencyRecord) (actor : Actor) (command : StoredCommand) :
    boundTo r.toJson.normalize actor command = true ↔ Own r actor command := by
  have owner : property (some r.toJson.normalize) "actor" = some r.actor.toJson.normalize := by
    rw [property_normalize]
    rfl
  have digest : property (some r.toJson.normalize) "command_digest" =
      some (jsonString r.commandDigest) := by
    rw [property_normalize]
    exact congrArg some (normalize_jsonString _)
  have type : property (some r.toJson.normalize) "command_type" =
      some (jsonString r.commandType.1) := by
    rw [property_normalize]
    exact congrArg some (normalize_jsonString _)
  have same : (isString (property (some r.actor.toJson.normalize) "org_id") actor.orgId.1 &&
      isString (property (some r.actor.toJson.normalize) "actor_id") actor.actorId.1 &&
      isString (property (some r.actor.toJson.normalize) "kind") actor.kind.text) =
        decide (r.actor = actor) := by
    have stored := isActor_stored r.actor actor
    exact Except.ok.inj stored
  unfold boundTo Own
  rw [owner, digest, type]
  dsimp only
  rw [same, isString_json, isString_json]
  simp [and_assoc]

section Reads

variable {view : View C} {s₀ : Store} {calls : List Call} {actor : Actor} {command : StoredCommand}

/-- What the view holds under the key. -/
theorem View.Of.record (of : view.Of s₀ calls) (actor : Actor) (command : StoredCommand) :
    (view.store (keyFor.idempotency actor.orgId.1 command.id.1) = none ∧
      view.idempotency actor command = none) ∨
    ∃ r : IdempotencyRecord, r.commandId = command.id ∧
      view.store (keyFor.idempotency actor.orgId.1 command.id.1) = some r.toJson.normalize ∧
      view.idempotency actor command = some r.toJson.normalize ∧
      ∃ checkpoint, view.checkpoints r.txId.1 = some checkpoint := by
  obtain ⟨L, config, holds, named⟩ := of.reads
  have read := holds.represents.stored (.idempotency actor.orgId command.id)
  cases found : L (.idempotency actor.orgId command.id) with
  | none =>
      rw [found] at read
      have empty : view.store (keyFor.idempotency actor.orgId.1 command.id.1) = none := read
      exact .inl ⟨empty, by rw [View.idempotency, empty]; rfl⟩
  | some r =>
      rw [found] at read
      have stored : view.store (keyFor.idempotency actor.orgId.1 command.id.1) =
          some r.1.toJson.normalize := read
      refine .inr ⟨r.1, r.2.2.1, stored, by rw [View.idempotency, stored]; rfl, ?_⟩
      exact named _ _ _ (State.idempotency_eq.mpr ⟨r.2, found⟩)

omit [Sha256] in
theorem checkpointForTransaction_record {r : IdempotencyRecord} {checkpoint : C}
    (known : view.checkpoints r.txId.1 = some checkpoint) :
    view.checkpointForTransaction r.toJson.normalize = .ok checkpoint := by
  have tx : property (some r.toJson.normalize) "tx_id" = some (jsonString r.txId.1) := by
    rw [property_normalize]
    exact congrArg some (normalize_jsonString _)
  rw [View.checkpointForTransaction, tx]
  simp [jsonString, known]

omit [Sha256] in
/-- The checks of a record's form pass on every record. -/
theorem record_form (r : IdempotencyRecord) :
    isString (property (some r.toJson.normalize) "record_type") "IdempotencyRecord" = true ∧
      isString (property (some r.toJson.normalize) "command_id") r.commandId.1 = true ∧
      isText (property (some r.toJson.normalize) "tx_id") = true ∧
      hasActor r.toJson.normalize = true ∧
      (property (some r.toJson.normalize) "command_digest").isSome = true ∧
      (property (some r.toJson.normalize) "command_type").isSome = true ∧
      (property (some r.toJson.normalize) "result").isSome = true := by
  have owner : property (some r.toJson.normalize) "actor" = some r.actor.toJson.normalize := by
    rw [property_normalize]
    rfl
  refine ⟨?_, ?_, ?_, ?_, ?_, ?_, ?_⟩
  · rw [property_normalize]
    exact (isString_normalize _ _).trans rfl
  · rw [property_normalize]
    refine (isString_normalize _ _).trans ?_
    exact (isString_json _ _).trans (beq_self_eq_true _)
  · rw [property_normalize]
    exact (congrArg isText (congrArg some (normalize_jsonString _))).trans rfl
  · unfold hasActor
    dsimp only
    rw [owner, property_normalize, property_normalize, property_normalize, isString_normalize,
      isString_normalize]
    clear owner
    obtain ⟨orgId, actorId, kind⟩ := r.actor
    have org : property (some (Actor.toJson ⟨orgId, actorId, kind⟩)) "org_id" =
        some (jsonString orgId.1) := rfl
    have name : property (some (Actor.toJson ⟨orgId, actorId, kind⟩)) "actor_id" =
        some (jsonString actorId.1) := rfl
    rw [org, name, Option.map_some, Option.map_some, normalize_jsonString, normalize_jsonString]
    cases kind <;> rfl
  · rw [property_normalize]
    rfl
  · rw [property_normalize]
    rfl
  · rw [property_normalize]
    rfl

omit [Sha256] in
theorem OwnIn.iff_boundTo {r : IdempotencyRecord}
    (stored : view.store (keyFor.idempotency actor.orgId.1 command.id.1) =
      some r.toJson.normalize) :
    OwnIn view actor command ↔ boundTo r.toJson.normalize actor command = true := by
  constructor
  · intro own
    exact (boundTo_record r actor command).mpr (own r stored)
  · intro bound other same
    have json := Option.some.inj (stored.symm.trans same)
    rw [json] at bound
    exact (boundTo_record other actor command).mp bound

/-- What both readers make of a view of the ledger. -/
theorem View.Of.outcome (of : view.Of s₀ calls) (actor : Actor) (command : StoredCommand) :
    (view.idempotency actor command = none ∧ OwnIn view actor command ∧
      view.committedCommand actor command = .ok none ∧ view.committed actor command = .ok none) ∨
    (view.idempotency actor command ≠ none ∧ OwnIn view actor command ∧ ∃ checkpoint,
      view.committedCommand actor command = .ok (some checkpoint) ∧
      view.committed actor command = .ok (some checkpoint)) ∨
    (view.idempotency actor command ≠ none ∧ ¬ OwnIn view actor command ∧
      view.committedCommand actor command = .error (.coded idempotencyConflict) ∧
      ∃ failure, view.committed actor command = .error failure) := by
  rcases of.record actor command with
    ⟨empty, none⟩ | ⟨r, id, stored, some, checkpoint, known⟩
  · refine .inl ⟨none, fun r stored => ?_, ?_, ?_⟩
    · rw [empty] at stored
      cases stored
    · rw [View.committedCommand, none]
    · rw [View.committed, none]
  · obtain ⟨type, commandId, tx, owner, digest, kind, result⟩ := record_form r
    rw [id] at commandId
    have present : view.idempotency actor command ≠ Option.none := by
      rw [some]
      exact Option.some_ne_none _
    by_cases bound : boundTo r.toJson.normalize actor command = true
    · refine .inr (.inl ⟨present, (OwnIn.iff_boundTo stored).mpr bound, checkpoint, ?_, ?_⟩)
      · rw [View.committedCommand, some]
        simp [type, commandId, tx, bound, checkpointForTransaction_record known]
      · rw [View.committed, some]
        simp [owner, digest, kind, result, tx, bound, checkpointForTransaction_record known]
    · have free : boundTo r.toJson.normalize actor command = false := by simpa using bound
      refine .inr (.inr ⟨present, fun own => bound ((OwnIn.iff_boundTo stored).mp own), ?_, ?_⟩)
      · rw [View.committedCommand, some]
        simp [free]
      · rw [View.committed, some]
        simp [owner, digest, kind, result, tx, free]

end Reads

end Views

/-! ## What a description needs -/

section Describing

variable {ledger : Ledger C} {s₀ : Store} {calls : List Call} {actor : Actor}
  {command : StoredCommand} {fabric : Fabric C}

end Describing

/-! ## Lists -/

section Lists

variable {finite : Option Value → Bool} {personas : List Actor} {ledger : Ledger C} {s₀ : Store}
  {calls : List Call} {actor : Actor} {rows : List Row}

omit [Sha256] in
theorem find_row (unique : (rows.map Row.id).Nodup) {row : Row} (mem : row ∈ rows) :
    rows.find? (·.id == row.id) = some row := by
  induction rows with
  | nil => cases mem
  | cons first rest ih =>
      obtain ⟨fresh, unique⟩ := List.nodup_cons.mp unique
      rcases List.mem_cons.mp mem with rfl | later
      · exact List.find?_cons_of_pos (beq_self_eq_true _)
      · have differs : (first.id == row.id) = false := by
          refine beq_eq_false_iff_ne.mpr fun same => ?_
          rw [same] at fresh
          exact fresh (List.mem_map_of_mem later)
        rw [List.find?_cons, differs]
        exact ih unique later

end Lists

end Service

/-! ## Two actors of one organization -/

namespace Demo

open Knowledger.Demo

@[reducible] local instance commandsSha256 : Sha256 := sha256

/-- The owner and a guest of the same organization. -/
def sharedConfig : DomainConfig :=
  { config with identities := [⟨owner, [.all], true⟩, ⟨guest, [.all], true⟩] }

theorem sharedConfig_valid : sharedConfig.Valid where
  identities_pos := by decide
  identities := by
    refine ⟨?_, by decide +kernel, by simp⟩
    intro identity mem
    simp only [sharedConfig, List.mem_cons, List.not_mem_nil, or_false] at mem
    rcases mem with rfl | rfl <;> simp [ConfigIdentity.Valid]
  policies_pos := by decide
  policies := by
    intro p mem
    simp only [sharedConfig, config, List.mem_cons, List.not_mem_nil, or_false] at mem
    rcases mem with rfl | rfl | rfl <;>
      exact ⟨policy_valid _, rfl, rfl, rfl, by decide⟩
  policies_nodup := by decide

theorem sharedConfig_canonical : ∃ text, canonicalize sharedConfig.toJson = .ok text :=
  canonicalize_isOk (by decide +kernel)

def sharedBootstrapping :
    Bootstrapping State.empty (context owner).toTx sharedConfig.toJson where
  context := context owner
  config := sharedConfig
  context_eq := owner_context
  human := owner_human
  channel := rfl
  config_eq := validateConfig_json sharedConfig_valid
  fresh := empty_fresh
  canonical := sharedConfig_canonical
  storable := policies_storable

def sharedStore : Store := (putAll [] sharedBootstrapping.entries).over Store.empty

def guestFence : Call := ⟨(context guest).toTx, fenceCommand.toJson⟩

/-- The local ledger after the guest's fence. -/
def view : View Nat := ⟨runAll [guestFence] sharedStore, fun _ => some 1⟩

def ledger : Ledger Nat := ⟨view, none⟩

def input : Value :=
  record [("agreement_id", jsonString "agreement-1"), ("reason", jsonString "-")]

def tracking : Value :=
  record [("created_at", jsonString "2026-01-01T00:00:00.000Z"), ("status", jsonString "rejected"),
    ("code", jsonString "IDEMPOTENCY_CONFLICT")]

def requestDigest : Value := jsonString (String.ofList (List.replicate 64 '0'))

/-- A record of the owner whose command was refused. -/
def withdrawal (id : Id) : Value :=
  record [("request_digest", requestDigest),
    ("command", record [("command_id", jsonString id.1), ("type", jsonString "withdraw"),
      ("input", input)]),
    ("tracking", tracking)]

def finite (value : Option Value) : Bool := isString value "2026-01-01T00:00:00.000Z"

def fenceId : Id := fenceCommand.commandId

/-- The owner's records, the first under the `command_id` of the guest's fence. -/
def rows : List Row := [⟨fenceId, withdrawal fenceId⟩, ⟨name "other", withdrawal (name "other")⟩]

/-- The ledger before the guest's fence. -/
def quiet : Ledger Nat := ⟨⟨sharedStore, fun _ => some 1⟩, none⟩

end Demo

end Knowledger.Api.Commands
