import Knowledger.Guarantees
import Knowledger.Requests

/-!
# Commands happen once

A committed command leaves its idempotency record, which no later call changes.  A call with
the same organization and `command_id` finds it: it returns the recorded result or fails, and
writes nothing.
-/

namespace Knowledger

open Js Txn

section Runs

variable [Sha256] {s : Store} {L : State} {config : DomainConfig}

/-! ## The record stays -/

theorem supersededEntries_kind {ctx : Context} {current : Option AgreementRecord}
    {valid : ∀ a, current = some a → a.Valid} :
    ∀ e ∈ supersededEntries ctx current valid, e.1.kind = .agreement := by
  cases current <;> simp [supersededEntries]

/-- Commands write no idempotency records themselves. -/
theorem Performs.kinds {ctx : Context} {command : DomainCommand} {r : Value}
    {es : List Entry} (performs : Performs L ctx config command r es) :
    ∀ e ∈ es, ¬ e.1.kind = .idempotency := by
  cases performs with
  | republish c type => simp
  | publish c type => simp [Publishing.entries]
  | propose c type => simp [Proposing.entries]
  | decide c type =>
      rw [Deciding.entries]
      cases c.suspension <;> simp [decisionEntries, Suspension.entries, closeEntries]
  | activate c type =>
      intro e mem
      simp only [Activating.entries, activatedEntries, List.cons_append, List.mem_cons,
        List.mem_append, List.not_mem_nil, or_false] at mem
      rcases mem with rfl | superseded | rfl | rfl | rfl
      · simp
      · simp [supersededEntries_kind e superseded]
      all_goals simp
  | withdraw c type => simp [StatusChange.entries, closeEntries]
  | suspend c type => simp [StatusChange.entries, closeEntries]
  | fence c type => simp [Fencing.entries]

theorem Performs.idempotency {ctx : Context} {command : DomainCommand} {r : Value}
    {es : List Entry} (performs : Performs L ctx config command r es) (orgId commandId : Id) :
    L.putAll es (.idempotency orgId commandId) = L (.idempotency orgId commandId) :=
  State.putAll_of_notMem fun e mem same => performs.kinds e mem (same ▸ rfl)

/-- A call keeps every idempotency record. -/
theorem Execution.keeps {ctx : TxContext} {command : Value} (c : Execution L ctx command)
    {orgId commandId : Id} {r : Key.Record (.idempotency orgId commandId)}
    (stored : L (.idempotency orgId commandId) = some r) :
    L.putAll c.entries (.idempotency orgId commandId) = some r := by
  rw [Execution.entries, State.putAll_append, State.putAll_cons, State.putAll_nil,
    State.set_of_ne, c.performs.idempotency, stored]
  rintro same
  obtain ⟨rfl, rfl⟩ : orgId = c.context.actor.orgId ∧ commandId = c.request.commandId := by
    simpa using same
  exact absurd (stored.symm.trans c.fresh) (by simp)

theorem Execution.recorded {ctx : TxContext} {command : Value} (c : Execution L ctx command) :
    (L.putAll c.entries).idempotency c.context.actor.orgId c.request.commandId = some c.record := by
  rw [State.idempotency, Execution.entries, State.putAll_append, State.putAll_cons,
    State.putAll_nil, State.set_self]
  rfl

omit [Sha256] in
theorem simulate_check_bind {α β : Type} {x : Except DomainError α} {a : α} {f : α → Tx β}
    {w : Writes String Value} (run : x = .ok a) :
    ((liftM x : Tx α) >>= f).simulate s w = (f a).simulate s w := by
  subst run
  rfl

omit [Sha256] in
theorem simulate_query_bind {α β : Type} {q : Read α} {a : α} {f : α → Tx β}
    {w : Writes String Value} (run : q.eval (w.over s) = .ok a) :
    ((liftM q : Tx α) >>= f).simulate s w = (f a).simulate s w := by
  rw [Program.simulate_bind, Query.simulate_lift, run]
  rfl

/-- A call that finds a record returns its result to the same request and refuses any
other. -/
theorem Admitted.again {ctx : TxContext} {command : Value} (h : Represents L s)
    (c : Admitted L ctx command) {r : IdempotencyRecord}
    (stored : L.idempotency c.context.actor.orgId c.request.commandId = some r) :
    (execute ctx command).simulate s [] =
      if r.SameRequest c.context.actor c.request c.digest then .ok (r.result, [])
      else idempotencyConflict := by
  obtain ⟨valid, inside⟩ := State.idempotency_eq.mp stored
  have empty : Represents L (Writes.over [] s) := by rwa [Writes.over_nil]
  have read : (getRecord (keyFor.idempotency c.context.actor.orgId.1
      c.request.commandId.1)).eval (Writes.over [] s) = .ok (some r.toJson.normalize) := by
    rw [eval_getRecord, show keyFor.idempotency c.context.actor.orgId.1 c.request.commandId.1 =
      (Key.idempotency c.context.actor.orgId c.request.commandId).text from rfl, empty.read, inside]
    rfl
  have channel : ensure (c.context.channelId == c.config.channelId) "SCOPE_MISMATCH"
      "transaction channel does not match configured channel" conflict = .ok () :=
    ensure_ok.mpr (beq_iff_eq.mpr c.channel)
  rw [execute, simulate_check_bind c.context_eq, simulate_check_bind c.request_eq,
    simulate_query_bind (empty.read_config.mpr c.config_eq), simulate_check_bind channel,
    simulate_check_bind c.identity_eq, simulate_check_bind c.digest_eq, simulate_query_bind read]
  change (liftM (replay _ _ _ _) : Tx Value).simulate s [] = _
  rw [Query.simulate_lift, replay_stored valid.1]
  split_ifs
  · rfl
  · rfl

/-- The same type and canonically equal inputs. -/
def DomainCommand.SameRequest (c d : DomainCommand) : Prop :=
  c.type = d.type ∧ (Value.obj c.input).normalize = (Value.obj d.input).normalize

/-- What the digest of a command is of. -/
def DomainCommand.digested (c : DomainCommand) : Value :=
  record [("type", jsonString c.type.1), ("input", Value.obj c.input)]

theorem DomainCommand.digest_eq {c : DomainCommand} {text : String}
    (canonical : canonicalize c.digested = .ok text) :
    idempotencyDigest c = .ok ("sha256:" ++ Sha256.hexDigest text) := by
  rw [idempotencyDigest, canonicalDigest, show record _ = c.digested from rfl, canonical]
  rfl

end Runs

namespace Demo

@[reducible] local instance : Sha256 := sha256

end Demo

end Knowledger
