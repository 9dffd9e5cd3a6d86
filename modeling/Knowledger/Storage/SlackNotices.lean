import Knowledger.Storage.DeliveryContract
import Knowledger.Lib.Machine

/-!
# The store of Slack notices

One row for each reminder, with the lease of the attempt in flight, a limit for each team and
conversation, and the resolutions people gave.  Every operation is one transaction: when it
throws, nothing has changed.  A row also has its history here, newest mark first, which the
statements are about and no operation reads.
-/

namespace Knowledger.Slack

open Js Storage

/-! ## Rows -/

inductive Status
  | sending
  | providerAccepted
  | retryWait
  | blocked
  | unknown
  | failed
  | userConfirmed
  | dismissed
  deriving DecidableEq

inductive Outcome
  | seen
  | retry
  | dismiss
  deriving DecidableEq

def Outcome.text : Outcome → String
  | .seen => "seen"
  | .retry => "retry"
  | .dismiss => "dismiss"

def Outcome.all : List Outcome := [.seen, .retry, .dismiss]

/-- The status a resolution leaves. -/
def Outcome.next : Outcome → Status
  | .seen => .userConfirmed
  | .dismiss => .dismissed
  | .retry => .retryWait

structure SlackNotice where
  reminderId : String
  binding : String
  status : Status
  attempts : Nat
  nextAttemptAt : Nat
  leaseToken : Option String
  leaseUntil : Option Nat
  lastCode : Option String
  receipt : Option Value
  version : Nat
  totalAttempts : Nat

/-- A row of `slack_notices`. -/
structure Row where
  owner : Person
  notice : SlackNotice

/-! ## Checks -/

def validTime (n : Nat) : Bool := n ≤ 253402300799999

/-- `/^SLACK_[A-Z_]{1,50}$/` -/
def isCode (s : String) : Bool :=
  let name := s.toList.drop 6
  s.toList.take 6 == "SLACK_".toList && name.all (fun c => upperChar c || c == '_') &&
    Nat.ble 1 name.length && Nat.ble name.length 50

def upperDigit (c : Char) : Bool := upperChar c || digitChar c

/-- `/^T[A-Z0-9]{2,31}$/` -/
def isTeam (s : String) : Bool := headThen (· == 'T') upperDigit 2 31 s.toList

/-- `/^D[A-Z0-9]{2,31}$/` -/
def isChannel (s : String) : Bool := headThen (· == 'D') upperDigit 2 31 s.toList

/-- `/^[0-9]{1,16}\.[0-9]{6}$/` -/
def isTimestamp (s : String) : Bool :=
  let whole := s.toList.takeWhile digitChar
  let rest := s.toList.drop whole.length
  Nat.ble 1 whole.length && Nat.ble whole.length 16 && rest.head? == some '.' &&
    rest.tail.all digitChar && rest.tail.length == 6

def slackAcceptance (value : Value) : Except Failure Value :=
  match isRecord value with
  | some fields =>
      if hasFields fields ["channel", "provider", "team_id", "ts"] &&
          isString (fields.get "provider") "slack" && matches_ isTeam (fields.get "team_id") &&
          matches_ isChannel (fields.get "channel") && matches_ isTimestamp (fields.get "ts") then
        .ok value
      else .error (.typeError "Invalid Slack acceptance")
  | none => .error (.typeError "Invalid Slack acceptance")

/-- The lease of a row: only a row that is being sent has one. -/
def SlackNotice.leased (n : SlackNotice) : Bool :=
  if n.status = .sending then n.leaseToken.any isToken && n.leaseUntil.any validTime
  else n.leaseToken.isNone && n.leaseUntil.isNone

/-- The checks of `decode`, but for the receipt. -/
def SlackNotice.valid (n : SlackNotice) : Bool :=
  isId n.reminderId && isDigest n.binding && n.attempts ≤ 3 && validTime n.nextAttemptAt &&
    isSafeInteger n.version && 1 ≤ n.version && isSafeInteger n.totalAttempts &&
    n.attempts ≤ n.totalAttempts &&
    (n.attempts != 0 || [Status.retryWait, .userConfirmed, .dismissed].contains n.status) &&
    n.lastCode.all isCode && n.leased

def decode (n : SlackNotice) : Except Failure SlackNotice :=
  if n.valid then
    match n.receipt with
    | some value =>
        match slackAcceptance value with
        | .ok _ => if n.status = .providerAccepted then .ok n else .error .storeCorrupt
        | .error _ => .error .storeCorrupt
    | none => if n.status = .providerAccepted then .error .storeCorrupt else .ok n
  else .error .storeCorrupt

structure SlackResolution where
  operationId : String
  expectedVersion : Nat
  outcome : Outcome

/-- An integer of at least one. -/
def positive : Option Value → Option Nat
  | some (.num (.int n)) => if isSafeInteger n && 1 ≤ n then some n.toNat else none
  | _ => none

/-- `value === true` -/
def isTrue : Option Value → Bool
  | some (.bool b) => b
  | _ => false

def confirmationRequired {α : Type} : Except Failure α :=
  .error (.delivery "SLACK_CONFIRMATION_REQUIRED" 400 false)

def validateSlackResolution (value : Value) : Except Failure SlackResolution :=
  match isRecord value with
  | some input =>
      if input.keys.all (allowedKey
          ["operation_id", "expected_version", "outcome", "confirm", "confirm_duplicate_risk"]) then
        match input.get "operation_id", positive (input.get "expected_version"),
          parseEnum Outcome.text Outcome.all (input.get "outcome") with
        | some (.str (.wellFormed operationId)), some expectedVersion, some outcome =>
            if isId operationId && isTrue (input.get "confirm") &&
                (if outcome = .retry then isTrue (input.get "confirm_duplicate_risk")
                else (input.get "confirm_duplicate_risk").isNone) then
              .ok ⟨operationId, expectedVersion, outcome⟩
            else confirmationRequired
        | _, _, _ => confirmationRequired
      else confirmationRequired
  | none => confirmationRequired

/-- What a worker reports of its attempt. -/
inductive SlackResult
  | providerAccepted (receipt : Value)
  | retryWait (code : String) (retryAfterMs : Option Int)
  | blocked (code : String)
  | unknown (code : String)

def SlackResult.status : SlackResult → Status
  | .providerAccepted _ => .providerAccepted
  | .retryWait _ _ => .retryWait
  | .blocked _ => .blocked
  | .unknown _ => .unknown

def SlackResult.code : SlackResult → Option String
  | .providerAccepted _ => none
  | .retryWait code _ | .blocked code | .unknown code => some code

/-- How long the next attempt waits. -/
def SlackResult.retry : SlackResult → Int
  | .retryWait _ retryAfterMs => retryAfterMs.getD 1000
  | _ => 0

/-! ## The store -/

/-- A change of a row. -/
inductive Mark
  | sent (token : String)
  | expired
  | settled (token : String) (status : Status)
  | resolved (outcome : Outcome)
  deriving DecidableEq

/-- What a worker holds from a claim. -/
structure Job where
  owner : Person
  id : String
  team : String
  dm : String
  token : String
  until_ : Nat

/-- A row of `slack_notice_resolutions`. -/
structure Resolution where
  requestDigest : String
  result : SlackNotice

structure State where
  clock : Nat
  rows : String → Option Row
  limits : String → Option Nat
  resolutions : Person → String → Option Resolution
  marks : String → List Mark
  jobs : List Job

def State.new : State where
  clock := 0
  rows _ := none
  limits _ := none
  resolutions _ _ := none
  marks _ := []
  jobs := []

def teamScope (team : String) : String := "team:" ++ team
def dmScope (team dm : String) : String := "dm:" ++ team ++ ":" ++ dm

/-- An integer column beyond the safe integers cannot be read. -/
def SlackNotice.readable (n : SlackNotice) : Bool :=
  isSafeInteger n.version && isSafeInteger n.totalAttempts

def State.get (s : State) (actor : Person) (id : String) : Except Failure (Option SlackNotice) :=
  match s.rows id with
  | some row =>
      if row.owner = actor then
        if row.notice.readable then some <$> decode row.notice else .error .outOfRange
      else .ok none
  | none => .ok none

def State.limit (s : State) (scope : String) : Except Failure Nat :=
  match s.limits scope with
  | some until_ => if validTime until_ then .ok until_ else .error .storeCorrupt
  | none => .ok 0

/-- `MAX(until_ms, excluded.until_ms)` -/
def raise (old : Option Nat) (until_ : Nat) : Nat :=
  match old with
  | some old => max old until_
  | none => until_

def State.defer (s : State) (scope : String) (until_ : Nat) : State :=
  { s with limits := Function.update s.limits scope (some (raise (s.limits scope) until_)) }

/-- The row is changed, and its version goes up. -/
def State.write (s : State) (id : String) (mark : Mark) (change : SlackNotice → SlackNotice) :
    State :=
  { s with
    rows := Function.update s.rows id ((s.rows id).map fun row =>
      { row with notice := { change row.notice with version := row.notice.version + 1 } })
    marks := Function.update s.marks id (mark :: s.marks id) }

/-! ## Claims -/

/-- The lease has run out. -/
def SlackNotice.lapsed (n : SlackNotice) (now : Nat) : Bool :=
  n.status == .sending && n.leaseUntil.any (· ≤ now)

def SlackNotice.waiting (n : SlackNotice) (binding : String) (now : Nat) : Bool :=
  n.binding == binding && n.status == .retryWait && n.nextAttemptAt ≤ now && n.attempts < 3

def SlackNotice.expire (n : SlackNotice) : SlackNotice :=
  { n with
    status := .unknown, leaseToken := none, leaseUntil := none
    lastCode := some "SLACK_RESULT_UNKNOWN" }

def SlackNotice.send (token : String) (until_ : Nat) (n : SlackNotice) : SlackNotice :=
  { n with
    status := .sending, attempts := n.attempts + 1, totalAttempts := n.totalAttempts + 1
    leaseToken := some token, leaseUntil := some until_, lastCode := none }

/-- The first attempt: the reminder is the key of the table. -/
def State.insert (s : State) (actor : Person) (id binding token : String) (until_ : Nat) :
    Except Failure State :=
  match s.rows id with
  | some _ => .error .constraint
  | none => .ok { s with
      rows := Function.update s.rows id (some ⟨actor,
        { reminderId := id, binding := binding, status := .sending, attempts := 1
          nextAttemptAt := s.clock, leaseToken := some token, leaseUntil := some until_
          lastCode := none, receipt := none, version := 1, totalAttempts := 1 }⟩)
      marks := Function.update s.marks id (.sent token :: s.marks id) }

/-- Whether the scopes are free. -/
def State.free (s : State) (team dm : String) : Except Failure Bool := do
  let team_ ← s.limit (teamScope team)
  if team_ > s.clock then return false
  let dm_ ← s.limit (dmScope team dm)
  return !(dm_ > s.clock)

/-- The row of the attempt. -/
def State.send (s : State) (existing : Option SlackNotice) (actor : Person)
    (id binding token : String) (until_ : Nat) : Except Failure State :=
  match existing with
  | some _ => .ok (s.write id (.sent token) (SlackNotice.send token until_))
  | none => s.insert actor id binding token until_

/-- The attempt takes its lease. -/
def State.take (s : State) (existing : Option SlackNotice) (actor : Person)
    (id binding team dm token : String) (until_ : Nat) :
    Except Failure (Option SlackNotice × State) := do
  let t ← s.send existing actor id binding token until_
  let t := t.defer (dmScope team dm) (until_ + 1000)
  let notice ← t.get actor id
  return (notice, { t with jobs := ⟨actor, id, team, dm, token, until_⟩ :: t.jobs })

def State.claim (s : State) (actor : Person) (id binding team dm : String) (leaseMs : Nat)
    (token : String) : Except Failure (Option SlackNotice × State) :=
  if isId id && isDigest binding && validTime s.clock && 1000 ≤ leaseMs && leaseMs ≤ 60000 then do
    let existing ← s.get actor id
    if existing.any (·.lapsed s.clock) then
      return (none, s.write id .expired SlackNotice.expire)
    else if existing.all (·.waiting binding s.clock) then
      if ← s.free team dm then s.take existing actor id binding team dm token (s.clock + leaseMs)
      else return (none, s)
    else return (none, s)
  else .error (.typeError "Invalid Slack claim")

/-! ## Results -/

def SlackNotice.settle (status : Status) (next : Nat) (code : Option String)
    (receipt : Option Value) (n : SlackNotice) : SlackNotice :=
  { n with
    status := status, nextAttemptAt := next, leaseToken := none, leaseUntil := none
    lastCode := code, receipt := receipt }

/-- The receipt of an accepted result. -/
def SlackResult.receipt : SlackResult → Except Failure (Option Value)
  | .providerAccepted receipt => some <$> slackAcceptance receipt
  | _ => .ok none

/-- A third attempt that would be retried has failed. -/
def SlackResult.settles (result : SlackResult) (attempts : Nat) : Status :=
  if result.status = .retryWait ∧ attempts ≥ 3 then .failed else result.status

/-- The lease of the attempt no longer holds the conversation. -/
def State.release (s : State) (job : Job) : State :=
  if s.limits (dmScope job.team job.dm) = some (job.until_ + 1000) then
    { s with limits := Function.update s.limits (dmScope job.team job.dm) (some (s.clock + 1000)) }
  else s

def State.settle (s : State) (job : Job) (result : SlackResult) : Except Failure State :=
  if validTime s.clock then do
    match ← s.get job.owner job.id with
    | some current =>
        if current.status = .sending ∧ current.leaseToken = some job.token then
          if 0 ≤ result.retry ∧ result.retry ≤ 86400000 then
            let receipt ← result.receipt
            let status := result.settles current.attempts
            let next := s.clock + result.retry.toNat
            let t := s.write job.id (.settled job.token status)
              (SlackNotice.settle status next result.code receipt)
            let t := if result.code = some "SLACK_RATE_LIMITED" then t.defer (teamScope job.team) next
              else t
            return t.release job
          else .error (.typeError "Invalid Slack retry")
        else return s
    | none => return s
  else .error (.typeError "Invalid Slack result time")

/-! ## Resolutions -/

def SlackNotice.resolve (outcome : Outcome) (now : Nat) (n : SlackNotice) : SlackNotice :=
  { n with
    status := outcome.next
    attempts := if outcome = .retry then 0 else n.attempts
    nextAttemptAt := now, leaseToken := none, leaseUntil := none
    lastCode := some
      (if outcome = .retry then "SLACK_MANUAL_RETRY" else "SLACK_USER_RESOLUTION") }

variable [Sha256]

/-- The digest of a resolution of the notice. -/
def requestDigest (id : String) (input : Value) : Except Failure String :=
  deliveryHash (record [("id", jsonString id), ("input", input)])

def State.resolutionReplay (s : State) (actor : Person) (id : String) (request : SlackResolution)
    (input : Value) : Except Failure (Option SlackNotice) :=
  match s.resolutions actor request.operationId with
  | none => .ok none
  | some row => do
      let digest ← requestDigest id input
      if row.requestDigest = digest then
        match decode row.result with
        | .ok notice => return some notice
        | .error _ => .error .storeCorrupt
      else .error (.delivery "IDEMPOTENCY_CONFLICT" 409 false)

omit [Sha256] in
/-- The status a resolution sees. -/
def SlackNotice.seen (n : SlackNotice) (binding : Option String) (now : Nat) : Status :=
  if n.lapsed now then .unknown
  else if binding ≠ some n.binding ∧ n.status = .retryWait then .blocked
  else n.status

omit [Sha256] in
/-- `eligible` is asked only of a retry with the right binding, and may throw. -/
def SlackNotice.allows (n : SlackNotice) (outcome : Outcome) (binding : Option String)
    (eligible : Option Bool) : Except Failure Bool :=
  if outcome = .retry then
    if binding = some n.binding then
      match eligible with
      | some allowed => .ok allowed
      | none => .error .callback
    else .ok false
  else .ok true

omit [Sha256] in
def State.record (s : State) (actor : Person) (operationId : String) (row : Resolution) : State :=
  { s with
    resolutions := Function.update s.resolutions actor
      (Function.update (s.resolutions actor) operationId (some row)) }

/-- A resolution that is not a repetition. -/
def State.resolveNew (s : State) (actor : Person) (id : String) (binding : Option String)
    (request : SlackResolution) (input : Value) (eligible : Option Bool) :
    Except Failure (SlackNotice × State) := do
  match ← s.get actor id with
  | none => .error (.delivery "NOT_FOUND" 404 false)
  | some current =>
      if current.version = request.expectedVersion ∧
          [Status.unknown, .blocked, .failed].contains (current.seen binding s.clock) then
        if ← current.allows request.outcome binding eligible then
          let t := s.write id (.resolved request.outcome)
            (SlackNotice.resolve request.outcome s.clock)
          match ← t.get actor id with
          | some result =>
              let digest ← requestDigest id input
              return (result, t.record actor request.operationId ⟨digest, result⟩)
          | none => .error (.delivery "NOT_FOUND" 404 false)
        else .error (.delivery "SLACK_RETRY_NOT_ALLOWED" 409 false)
      else .error (.delivery "SLACK_STATE_CHANGED" 409 false)

def State.resolve (s : State) (actor : Person) (id : String) (binding : Option String)
    (input : Value) (eligible : Option Bool) : Except Failure (SlackNotice × State) := do
  let request ← validateSlackResolution input
  if isId id && validTime s.clock then
    match ← s.resolutionReplay actor id request input with
    | some replay => return (replay, s)
    | none => s.resolveNew actor id binding request input eligible
  else .error (.delivery "INVALID_INPUT" 400 false)

/-! ## Steps -/

inductive Event
  | clock (now : Nat)
  | claim (actor : Person) (id binding team dm : String) (leaseMs : Nat) (token : String)
  | settle (job : Nat) (result : SlackResult)
  | resolve (actor : Person) (id : String) (binding : Option String) (input : Value)
      (eligible : Option Bool)

/-- `randomUUID` is never drawn twice. -/
def State.fresh (s : State) (token : String) : Prop :=
  isToken token = true ∧ ∀ job ∈ s.jobs, job.token ≠ token

/-- The adapter's codes. -/
def SlackResult.adapted (result : SlackResult) : Bool := result.code.all isCode

instance (s : State) (token : String) : Decidable (s.fresh token) :=
  inferInstanceAs (Decidable (_ ∧ _))

/-- A call that throws leaves the store as it was. -/
def State.after (s : State) {α : Type} (result : Except Failure (α × State)) : State :=
  match result with
  | .ok (_, t) => t
  | .error _ => s

def State.step (s : State) : Event → Option State
  | .clock now => if s.clock ≤ now then some { s with clock := now } else none
  | .claim actor id binding team dm leaseMs token =>
      if s.fresh token then some (s.after (s.claim actor id binding team dm leaseMs token))
      else none
  | .settle job result =>
      match s.jobs[job]? with
      | some job =>
          if result.adapted then some (s.after ((fun t => ((), t)) <$> s.settle job result))
          else none
      | none => none
  | .resolve actor id binding input eligible =>
      some (s.after (s.resolve actor id binding input eligible))

end Knowledger.Slack
