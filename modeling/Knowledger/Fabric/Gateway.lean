import Knowledger.Lib.Machine

/-!
# The gateway transport and its outbox

A command is proposed, recorded in the outbox, endorsed and submitted, and its attempt is then
settled from what the peer reports: the status of the transaction, or the command's idempotency
record.  Recoveries and observations go over the attempts that were recorded.

An event is one segment of a call between two of its awaits, or the answer of the client that
ends it, so a run is an interleaving of any calls over one outbox.
-/

namespace Knowledger.Gateway

variable {Tx : Type}

/-! ## The outbox -/

/-- A command is known by its organisation and id; the digest is of its type and input. -/
structure Command where
  actorOrgId : String
  commandId : String
  payloadDigest : String
  deriving DecidableEq

inductive Status
  | pending
  | endorsed
  | acknowledged
  | unknown
  | valid
  | invalid
  | reconciled
  | cancelled
  deriving DecidableEq

structure Attempt (Tx : Type) where
  command : Command
  txId : Tx

structure Row (Tx : Type) extends Attempt Tx where
  status : Status
  updatedAt : Nat

/-- The statuses of an attempt that is still outstanding. -/
def Status.recoverable : Status → Bool
  | .pending | .endorsed | .acknowledged | .unknown => true
  | _ => false

/-- The command whose attempts are listed, whatever its digest. -/
def Row.of (row : Row Tx) (command : Command) : Bool :=
  row.command.actorOrgId == command.actorOrgId && row.command.commandId == command.commandId

variable [LinearOrder Tx]

/-- `ORDER BY updated_at, tx_id` -/
def Row.before (a b : Row Tx) : Prop :=
  a.updatedAt < b.updatedAt ∨ a.updatedAt = b.updatedAt ∧ a.txId ≤ b.txId

instance : DecidableRel (@Row.before Tx _) := fun _ _ => inferInstanceAs (Decidable (_ ∨ _))

def listRecoverable (rows : List (Row Tx)) : List (Row Tx) :=
  (rows.filter fun row => row.status.recoverable).insertionSort Row.before

/-- The attempts of the command that are recorded. -/
def commandRows (rows : List (Row Tx)) (command : Command) : List (Row Tx) :=
  rows.filter fun row => row.of command

/-- The latest attempts, one more than an observation accepts. -/
def listCommandAttempts (rows : List (Row Tx)) (command : Command) : List (Row Tx) :=
  ((commandRows rows command).insertionSort fun a b => Row.before b a).take 129

/-! ## Calls -/

/-- What a call returns or throws. -/
inductive Outcome
  | pending
  | valid
  | invalid
  | threw
  deriving DecidableEq

inductive Observation
  | absent
  | pending
  | rejected
  | cancelled
  | threw
  deriving DecidableEq

/-- What the peer says of a transaction: its final status, or nothing final. -/
inductive Report
  | valid
  | invalid
  | unknown
  deriving DecidableEq

/-- What `newProposal`, `endorse` or `submit` of the client comes to. -/
inductive Answer
  | returned
  | authorizationCancelled
  | failed
  deriving DecidableEq

/-- Where a call waits. -/
inductive Stage (Tx : Type)
  | proposing
  | recorded (tx : Tx)
  | endorsing (tx : Tx)
  | endorsed (tx : Tx)
  | submitting (tx : Tx)
  | sent (tx : Tx)
  | querying (attempt : Attempt Tx)
  | reconciling (attempt : Attempt Tx) (report : Report)
  | listing
  | loading
  | reloading
  | loaded (attempts : List (Row Tx)) (first : Bool) (read : List Tx)
  | settled

/-- What the call is for, with the attempts a recovery has still to go over. -/
inductive Purpose (Tx : Type)
  | execute (command : Command)
  | recover (rest : List (Attempt Tx))
  | observe (command : Command) (queryPeer : Bool)

structure Call (Tx : Type) where
  purpose : Purpose Tx
  stage : Stage Tx

/-- An answer of `observeCommand`, with the transactions the outbox held for the command when
the attempts were last read and when the answer was given. -/
structure Observed (Tx : Type) where
  command : Command
  observation : Observation
  read : List Tx
  recorded : List Tx

/-- The outbox, the calls, what reached the network, the idempotency records of the ledger, and
the past that the statements are about. -/
structure State (Tx : Type) where
  rows : List (Row Tx)
  calls : Nat
  call : Nat → Call Tx
  clock : Nat
  sent : List Tx
  records : List Command
  handed : List Tx
  reports : List (Tx × Report)
  invalidated : List Tx
  cancelled : List Tx
  results : List (Attempt Tx × Outcome)
  observed : List (Observed Tx)

inductive Event (Tx : Type)
  | execute (command : Command)
  | recover (attempt : Attempt Tx)
  | recoverPending
  | observeCommand (command : Command) (queryPeer : Bool)
  | clock (now : Nat)
  | record (command : Command)
  | proposed (f : Nat) (answer : Answer) (tx : Tx)
  | endorse (f : Nat)
  | endorsed (f : Nat) (answer : Answer)
  | submit (f : Nat)
  | send (f : Nat)
  | submitted (f : Nat) (answer : Answer)
  | status (f : Nat) (report : Report) (resultThrows : Bool)
  | authoritative (f : Nat) (answer : Option (Option String))
  | list (f : Nat)
  | load (f : Nat)
  | answer (f : Nat)

def State.new : State Tx where
  rows := []
  calls := 0
  call _ := ⟨.recover [], .settled⟩
  clock := 0
  sent := []
  records := []
  handed := []
  reports := []
  invalidated := []
  cancelled := []
  results := []
  observed := []

def State.begin (s : State Tx) (purpose : Purpose Tx) (stage : Stage Tx) : State Tx :=
  { s with calls := s.calls + 1, call := Function.update s.call s.calls ⟨purpose, stage⟩ }

def State.goto (s : State Tx) (f : Nat) (stage : Stage Tx) : State Tx :=
  { s with call := Function.update s.call f { s.call f with stage := stage } }

/-- `recordAttempt`: the transaction id is the key of the table. -/
def State.recordAttempt (s : State Tx) (attempt : Attempt Tx) : Option (State Tx) :=
  if attempt.txId ∈ s.rows.map (·.txId) then none
  else some { s with rows := ⟨attempt, .pending, s.clock⟩ :: s.rows }

/-- `updateAttempt`: a missing row is an error. -/
def State.updateAttempt (s : State Tx) (tx : Tx) (status : Status) : Option (State Tx) :=
  if tx ∈ s.rows.map (·.txId) then
    some { s with
      rows := s.rows.map fun row =>
        if row.txId = tx then { row with status := status, updatedAt := s.clock } else row
      invalidated := if status = .invalid then tx :: s.invalidated else s.invalidated
      cancelled := if status = .cancelled then tx :: s.cancelled else s.cancelled }
  else none

/-- The call of `recover`, or the loop of `recoverPending`, goes on behind an attempt. -/
def State.afterRecover (s : State Tx) (f : Nat) (threw : Bool) : State Tx :=
  match (s.call f).purpose with
  | .recover (next :: rest) =>
      if threw then s.goto f .settled
      else { s with call := Function.update s.call f ⟨.recover rest, .querying next⟩ }
  | .observe _ _ => s.goto f (if threw then .settled else .reloading)
  | _ => s.goto f .settled

/-- An attempt has come to an outcome. -/
def State.conclude (s : State Tx) (f : Nat) (attempt : Attempt Tx) (outcome : Outcome) : State Tx :=
  { s.afterRecover f (outcome = .threw) with results := (attempt, outcome) :: s.results }

/-- The outbox is updated, or the call throws. -/
def State.updating (s : State Tx) (f : Nat) (attempt : Attempt Tx) (status : Status)
    (next : State Tx → State Tx) : State Tx :=
  match s.updateAttempt attempt.txId status with
  | some t => next t
  | none => s.conclude f attempt .threw

/-- The command of an `execute` call, with the transaction of its proposal. -/
def State.attempt (s : State Tx) (f : Nat) (tx : Tx) : Attempt Tx :=
  match (s.call f).purpose with
  | .execute command => ⟨command, tx⟩
  | .observe command _ => ⟨command, tx⟩
  | .recover _ => ⟨⟨"", "", ""⟩, tx⟩

/-! ## Execution -/

/-- `newProposal` has answered, and the attempt is recorded before it is endorsed. -/
def State.proposed (s : State Tx) (f : Nat) (answer : Answer) (tx : Tx) : State Tx :=
  match answer with
  | .returned =>
      match s.recordAttempt (s.attempt f tx) with
      | some t => t.goto f (.recorded tx)
      | none => s.goto f .settled
  | _ => s.goto f .settled

/-- `endorse` has answered. -/
def State.endorsed (s : State Tx) (f : Nat) (tx : Tx) (answer : Answer) : State Tx :=
  let attempt := s.attempt f tx
  match answer with
  | .returned => s.updating f attempt .endorsed fun t => t.goto f (.endorsed tx)
  | .authorizationCancelled => s.updating f attempt .cancelled fun t => t.conclude f attempt .threw
  | .failed => s.updating f attempt .unknown fun t => t.conclude f attempt .pending

/-- `submit` has answered: an error leaves the transaction to the status query. -/
def State.submitted (s : State Tx) (f : Nat) (tx : Tx) (answer : Answer) : State Tx :=
  let attempt := s.attempt f tx
  match answer with
  | .returned => s.updating f attempt .acknowledged fun t => t.goto f (.querying attempt)
  | .authorizationCancelled => s.updating f attempt .cancelled fun t => t.conclude f attempt .threw
  | .failed => s.updating f attempt .unknown fun t => t.goto f (.querying attempt)

/-- `getStatus` has answered. -/
def State.status (s : State Tx) (f : Nat) (attempt : Attempt Tx) (report : Report)
    (resultThrows : Bool) : State Tx :=
  let s := { s with reports := (attempt.txId, report) :: s.reports }
  match report, (s.call f).purpose with
  | .valid, .execute _ => s.updating f attempt .valid fun t =>
      t.conclude f attempt (if resultThrows then .threw else .valid)
  | .valid, _ => s.updating f attempt .valid fun t => t.conclude f attempt .valid
  | _, _ => s.goto f (.reconciling attempt report)

/-- `getAuthoritativeCommandResult` has answered: it threw, found nothing, or found a record. -/
def State.authoritative (s : State Tx) (f : Nat) (attempt : Attempt Tx) (report : Report)
    (answer : Option (Option String)) : State Tx :=
  match answer with
  | none => s.conclude f attempt .pending
  | some found =>
      if found = some attempt.command.payloadDigest then
        s.updating f attempt .reconciled fun t => t.conclude f attempt .valid
      else if report = .invalid then
        s.updating f attempt .invalid fun t => t.conclude f attempt .invalid
      else s.conclude f attempt .pending

/-! ## Observation -/

/-- The attempts are read again behind a recovery. -/
def State.load (s : State Tx) (f : Nat) (command : Command) (first : Bool) : State Tx :=
  s.goto f (.loaded (listCommandAttempts s.rows command) first
    ((commandRows s.rows command).map (·.txId)))

/-- What the attempts that were read say of the command. -/
def observation (attempts : List (Row Tx)) : Observation :=
  if attempts.any fun row => !(row.status == .invalid || row.status == .cancelled) then .pending
  else if attempts.all fun row => row.status == .cancelled then .cancelled
  else .rejected

def State.observe (s : State Tx) (f : Nat) (command : Command) (read : List Tx)
    (observation : Observation) : State Tx :=
  { s.goto f .settled with
    observed := ⟨command, observation, read,
      (commandRows s.rows command).map (·.txId)⟩ :: s.observed }

/-- The attempts have been read: one that is outstanding may be recovered first. -/
def State.answer (s : State Tx) (f : Nat) (command : Command) (queryPeer : Bool)
    (attempts : List (Row Tx)) (first : Bool) (read : List Tx) : State Tx :=
  if first ∧ attempts = [] then s.observe f command read .absent
  else if attempts.any fun row => row.command.payloadDigest != command.payloadDigest then
    s.observe f command read .threw
  else if first ∧ attempts.length > 128 then s.observe f command read .pending
  else
    match attempts.find? fun row => row.status.recoverable with
    | some row =>
        if first ∧ queryPeer then s.goto f (.querying row.toAttempt)
        else s.observe f command read (observation attempts)
    | none => s.observe f command read (observation attempts)

/-! ## Steps -/

variable (final : Tx → Report)

/-- The peer reports a final status only of a transaction that was sent, and always the same. -/
def State.truthful (s : State Tx) (tx : Tx) (report : Report) : Prop :=
  report = .unknown ∨ tx ∈ s.sent ∧ report = final tx

/-- The ledger answers with the record of the command, if there is one. -/
def State.truthfulRecord (s : State Tx) (command : Command) : Option (Option String) → Prop
  | some (some digest) => ⟨command.actorOrgId, command.commandId, digest⟩ ∈ s.records
  | _ => True

instance (s : State Tx) (tx : Tx) (report : Report) : Decidable (s.truthful final tx report) :=
  inferInstanceAs (Decidable (_ ∨ _))

instance (s : State Tx) (command : Command) (answer : Option (Option String)) :
    Decidable (s.truthfulRecord command answer) := by
  rcases answer with _ | _ | digest <;> unfold State.truthfulRecord <;> infer_instance

def State.step (s : State Tx) : Event Tx → Option (State Tx)
  | .execute command => some (s.begin (.execute command) .proposing)
  | .recover attempt => some (s.begin (.recover []) (.querying attempt))
  | .recoverPending => some (s.begin (.recover []) .listing)
  | .observeCommand command queryPeer => some (s.begin (.observe command queryPeer) .loading)
  | .clock now => some { s with clock := now }
  | .record command => some { s with records := command :: s.records }
  | .proposed f answer tx =>
      match (s.call f).stage with
      | .proposing => some (s.proposed f answer tx)
      | _ => none
  | .endorse f =>
      match (s.call f).stage with
      | .recorded tx => some { s.goto f (.endorsing tx) with handed := tx :: s.handed }
      | _ => none
  | .endorsed f answer =>
      match (s.call f).stage with
      | .endorsing tx => some (s.endorsed f tx answer)
      | _ => none
  | .submit f =>
      match (s.call f).stage with
      | .endorsed tx => some { s.goto f (.submitting tx) with handed := tx :: s.handed }
      | _ => none
  | .send f =>
      -- The authorisation has passed and the request leaves.
      match (s.call f).stage with
      | .submitting tx => some { s.goto f (.sent tx) with sent := tx :: s.sent }
      | _ => none
  | .submitted f answer =>
      match (s.call f).stage with
      | .submitting tx => if answer = .returned then none else some (s.submitted f tx answer)
      | .sent tx =>
          if answer = .authorizationCancelled then none else some (s.submitted f tx answer)
      | _ => none
  | .status f report resultThrows =>
      match (s.call f).stage with
      | .querying attempt =>
          if s.truthful final attempt.txId report then some (s.status f attempt report resultThrows)
          else none
      | _ => none
  | .authoritative f answer =>
      match (s.call f).stage with
      | .reconciling attempt report =>
          if s.truthfulRecord attempt.command answer then
            some (s.authoritative f attempt report answer)
          else none
      | _ => none
  | .list f =>
      match (s.call f).stage with
      | .listing =>
          match (listRecoverable s.rows).map (·.toAttempt) with
          | [] => some (s.goto f .settled)
          | attempt :: rest =>
              some { s with call := Function.update s.call f ⟨.recover rest, .querying attempt⟩ }
      | _ => none
  | .load f =>
      match (s.call f).stage, (s.call f).purpose with
      | .loading, .observe command _ => some (s.load f command true)
      | .reloading, .observe command _ => some (s.load f command false)
      | _, _ => none
  | .answer f =>
      match (s.call f).stage, (s.call f).purpose with
      | .loaded attempts first read, .observe command queryPeer =>
          some (s.answer f command queryPeer attempts first read)
      | _, _ => none

end Knowledger.Gateway
