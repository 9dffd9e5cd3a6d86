import Knowledger.Storage.DeliveryContract
import Knowledger.Lib.Machine

/-!
# Review deliveries

The sender's outbox and the receiver's inbox.  A worker claims a row, hands its packet to the
transport and settles the row with the receipt or the error it gets; the receiver stores a packet
and answers with its receipt.  Between the two, packets and receipts may be lost, delayed or
doubled: the receiver may be handed any packet at any time, and a transport may return any
receipt the receiver gave.

An event is one transaction of the store, or one statement of it; when it throws, nothing has
changed.  Every reading of the clock is the caller's.
-/

namespace Knowledger.Delivery

open Js Storage

inductive DeliveryStatus
  | pending
  | sending
  | delivered
  | blocked
  | failed
  deriving DecidableEq

/-- A row of `review_delivery_outbox`. -/
structure OutboxRow where
  seq : Nat
  deliveryId : String
  owner : Person
  operationId : String
  requestDigest : String
  targetId : String
  targetBinding : String
  packetJson : Value
  status : DeliveryStatus
  attempts : Nat
  totalAttempts : Nat
  nextAttemptAt : Nat
  leaseToken : Option String
  leaseUntil : Option Nat
  lastCode : Option String
  receiptJson : Option Value

/-- A row of `review_delivery_inbox`. -/
structure InboxRow where
  sourceId : String
  deliveryId : String
  payloadDigest : String
  recipient : Person
  packetJson : Value
  receiptJson : Value

structure DeliveryJob where
  packet : ReviewPacket
  targetId : String
  targetBinding : String
  status : DeliveryStatus
  attempts : Nat
  totalAttempts : Nat
  nextAttemptAt : Nat
  leaseToken : Option String
  lastCode : Option String
  receipt : Option Value

/-- What the history of a row keeps: its claims, with the limit they had, and its retries. -/
inductive Mark
  | claimed (maxAttempts : Nat)
  | retried
  deriving DecidableEq

structure State where
  outbox : List OutboxRow
  seq : Nat
  inbox : List InboxRow
  jobs : List DeliveryJob
  answers : List Value
  marks : String → List Mark

def State.new : State where
  outbox := []
  seq := 1
  inbox := []
  jobs := []
  answers := []
  marks _ := []

/-! ## Reading a row -/

/-- `/^[A-Z][A-Z0-9_]{1,63}$/` -/
def isCode (s : String) : Bool :=
  headThen upperChar (fun c => upperChar c || digitChar c || c == '_') 1 63 s.toList

/-- The lease of a row: only a row that is being sent has one. -/
def OutboxRow.leased (row : OutboxRow) : Bool :=
  if row.status = .sending then
    row.leaseToken.any isToken && row.leaseUntil.any fun n => isSafeInteger n
  else row.leaseToken.isNone && row.leaseUntil.isNone

def OutboxRow.valid (row : OutboxRow) (packet : ReviewPacket) : Bool :=
  packet.deliveryId == row.deliveryId && packet.author == row.owner && isId row.targetId &&
    isSafeInteger row.attempts && isSafeInteger row.totalAttempts &&
    row.attempts ≤ row.totalAttempts && isSafeInteger row.nextAttemptAt &&
    isDigest row.targetBinding && row.lastCode.all isCode && row.leased

/-- The receipt of a row: only a row that is delivered has one. -/
def OutboxRow.receipted (row : OutboxRow) (packet : ReviewPacket) : Bool :=
  match row.receiptJson with
  | some receipt => row.status = .delivered && (validateReviewReceipt receipt packet).isOk
  | none => row.status ≠ .delivered

def storeCorrupt : Failure := .delivery "DELIVERY_STORE_CORRUPT" 503 false

variable [Sha256]

def job (row : OutboxRow) : Except Failure DeliveryJob :=
  match validateReviewPacket row.packetJson with
  | .ok packet =>
      if row.valid packet && row.receipted packet then
        .ok ⟨packet, row.targetId, row.targetBinding, row.status, row.attempts, row.totalAttempts,
          row.nextAttemptAt, row.leaseToken, row.lastCode, row.receiptJson⟩
      else .error storeCorrupt
  | .error _ => .error storeCorrupt

/-! ## The sender -/

def State.get (s : State) (actor : Person) (id : String) : Except Failure DeliveryJob :=
  match s.outbox.find? fun row => row.deliveryId == id && row.owner == actor with
  | some row => job row
  | none => .error (.delivery "NOT_FOUND" 404 false)

/-- The row of a new delivery, unless its id or its operation is taken. -/
def State.insert (s : State) (row : OutboxRow) : Except Failure State :=
  if s.outbox.any fun old => old.deliveryId == row.deliveryId ||
      (old.owner == row.owner && old.operationId == row.operationId) then
    .error .constraint
  else .ok { s with outbox := s.outbox ++ [row], seq := s.seq + 1 }

def State.enqueue (s : State) (actor : Person) (operationId : String) (input : Value)
    (targetId targetBinding : String) (packet : Value) (now : Nat) :
    Except Failure (DeliveryJob × State) := do
  let checked ← validateReviewPacket packet
  let requestDigest ← deliveryHash input
  match s.outbox.find? fun row => row.owner == actor && row.operationId == operationId with
  | some existing =>
      if existing.requestDigest = requestDigest then
        let found ← job existing
        return (found, s)
      else .error (.delivery "IDEMPOTENCY_CONFLICT" 409 false)
  | none =>
      let t ← s.insert
        { seq := s.seq, deliveryId := checked.deliveryId, owner := actor
          operationId := operationId, requestDigest := requestDigest, targetId := targetId
          targetBinding := targetBinding, packetJson := packet, status := .pending, attempts := 0
          totalAttempts := 0, nextAttemptAt := now, leaseToken := none, leaseUntil := none
          lastCode := none, receiptJson := none }
      let found ← t.get actor checked.deliveryId
      return (found, t)

/-- The lease has run out. -/
def OutboxRow.lapsed (row : OutboxRow) (now : Nat) : Bool :=
  row.status == .sending && row.leaseUntil.any (· ≤ now)

/-- A row that has had all its attempts is not claimed again. -/
def OutboxRow.expire (maxAttempts now : Nat) (row : OutboxRow) : OutboxRow :=
  if maxAttempts ≤ row.attempts ∧ (row.status = .pending ∨ row.lapsed now = true) then
    { row with
      status := .failed, lastCode := some "DELIVERY_UNCONFIRMED", leaseToken := none
      leaseUntil := none }
  else row

def OutboxRow.claimable (now : Nat) (exclude : List String) (row : OutboxRow) : Bool :=
  ((row.status == .pending && row.nextAttemptAt ≤ now) || row.lapsed now) &&
    !exclude.contains row.deliveryId

/-- `ORDER BY next_attempt_at, seq` -/
def OutboxRow.before (a b : OutboxRow) : Prop :=
  a.nextAttemptAt < b.nextAttemptAt ∨ a.nextAttemptAt = b.nextAttemptAt ∧ a.seq ≤ b.seq

instance : DecidableRel OutboxRow.before := fun _ _ => inferInstanceAs (Decidable (_ ∨ _))

def OutboxRow.claim (token : String) (until_ : Nat) (row : OutboxRow) : OutboxRow :=
  { row with
    status := .sending, attempts := row.attempts + 1, totalAttempts := row.totalAttempts + 1
    leaseToken := some token, leaseUntil := some until_ }

/-- `UPDATE … WHERE delivery_id = ?` -/
def State.update (s : State) (id : String) (change : OutboxRow → OutboxRow) : State :=
  { s with outbox := s.outbox.map fun row => if row.deliveryId = id then change row else row }

def State.mark (s : State) (id : String) (mark : Mark) : State :=
  { s with marks := Function.update s.marks id (mark :: s.marks id) }

def State.claim (s : State) (now leaseMs maxAttempts : Nat) (exclude : List String)
    (token : String) : Except Failure (Option DeliveryJob × State) :=
  if exclude.length > 20 || !exclude.all isId then .error (.typeError "Invalid delivery batch")
  else
    let s := { s with outbox := s.outbox.map (OutboxRow.expire maxAttempts now) }
    match ((s.outbox.filter (OutboxRow.claimable now exclude)).insertionSort OutboxRow.before).head?
    with
    | none => .ok (none, s)
    | some row => do
        let _ ← job row
        let found ← job (row.claim token (now + leaseMs))
        let t := (s.update row.deliveryId (OutboxRow.claim token (now + leaseMs))).mark
          row.deliveryId (.claimed maxAttempts)
        return (some found, { t with jobs := found :: t.jobs })

def OutboxRow.settle (status : DeliveryStatus) (next : Nat) (code : Option String)
    (receipt : Option Value) (row : OutboxRow) : OutboxRow :=
  { row with
    status := status, nextAttemptAt := next, lastCode := code, receiptJson := receipt
    leaseToken := none, leaseUntil := none }

/-- The row still has the lease of the job. -/
def OutboxRow.heldBy (row : OutboxRow) (job : DeliveryJob) : Bool :=
  row.deliveryId == job.packet.deliveryId && row.status == .sending && row.leaseToken.isSome &&
    row.leaseToken == job.leaseToken

/-- The row is updated if it has the job's lease, and the answer says whether one had. -/
def State.settle (s : State) (job : DeliveryJob) (status : DeliveryStatus) (next : Nat)
    (code : Option String) (receipt : Option Value) : Except Failure (Bool × State) := do
  match receipt with
  | some receipt => let _ ← validateReviewReceipt receipt job.packet
  | none => pure ()
  return (s.outbox.any (·.heldBy job),
    { s with outbox := s.outbox.map fun row =>
        if row.heldBy job then row.settle status next code receipt else row })

def OutboxRow.retry (now : Nat) (row : OutboxRow) : OutboxRow :=
  { row with
    status := .pending, attempts := 0, nextAttemptAt := now, leaseToken := none
    leaseUntil := none }

def State.retry (s : State) (actor : Person) (id : String) (now : Nat) :
    Except Failure (DeliveryJob × State) := do
  let found ← s.get actor id
  if found.status = .failed ∨ found.status = .blocked then
    let t := (s.update id (OutboxRow.retry now)).mark id .retried
    let after ← t.get actor id
    return (after, t)
  else .error (.delivery "DELIVERY_NOT_RETRYABLE" 409 false)

/-! ## The receiver -/

/-- The packet and the receipt of a stored row. -/
def received (row : InboxRow) : Except Failure (ReviewPacket × Value) :=
  match validateReviewPacket row.packetJson with
  | .ok packet =>
      if packet.sourceId = row.sourceId ∧ packet.deliveryId = row.deliveryId ∧
          packet.payloadDigest = row.payloadDigest ∧ packet.recipient = row.recipient then
        match validateReviewReceipt row.receiptJson packet with
        | .ok receipt => .ok (packet, receipt)
        | .error _ => .error storeCorrupt
      else .error storeCorrupt
  | .error _ => .error storeCorrupt

omit [Sha256] in
def reviewReceipt (packet : ReviewPacket) (receivedAt : String) : Value :=
  record [("schema_version", jsonNat 1), ("delivery_id", jsonString packet.deliveryId),
    ("payload_digest", jsonString packet.payloadDigest), ("received_at", jsonString receivedAt)]

def State.receive (s : State) (packet : Value) (receivedAt : String) :
    Except Failure (Value × State) := do
  let packet ← validateReviewPacket packet
  match s.inbox.find? fun row =>
      row.sourceId == packet.sourceId && row.deliveryId == packet.deliveryId with
  | some row =>
      if row.payloadDigest = packet.payloadDigest then
        let found ← received row
        return (found.2, s)
      else .error (.delivery "DELIVERY_ID_CONFLICT" 409 false)
  | none =>
      let receipt := reviewReceipt packet receivedAt
      return (receipt, { s with
        inbox := s.inbox ++ [⟨packet.sourceId, packet.deliveryId, packet.payloadDigest,
          packet.recipient, packet.json, receipt⟩] })

/-! ## The worker -/

/-- What the transport came to: it returned, or it threw, a `DeliveryError` or not. -/
inductive Answer
  | returned (receipt : Value)
  | threw (error : Option (String × Bool))

structure Options where
  maxAttempts : Nat
  retryBaseMs : Nat

/-- The code of an error that is kept: only a bounded one. -/
def keptCode : Option (String × Bool) → String
  | some (code, _) => if isCode code then code else "DELIVERY_UNAVAILABLE"
  | none => "DELIVERY_UNAVAILABLE"

/-- An attempt failed. -/
def State.fail (s : State) (o : Options) (job : DeliveryJob) (error : Option (String × Bool))
    (now : Nat) : Except Failure (Bool × State) :=
  let retryable := match error with
    | some (_, retryable) => retryable
    | none => true
  let status := if !retryable then .blocked else if job.attempts ≥ o.maxAttempts then .failed
    else .pending
  s.settle job status (now + min 3600000 (o.retryBaseMs * 2 ^ (job.attempts - 1)))
    (some (keptCode error)) none

/-- The end of a round of `drain`: the receipt is checked before it is settled with. -/
def State.drain (s : State) (o : Options) (job : DeliveryJob) (answer : Answer) (now : Nat) :
    Except Failure (Bool × State) :=
  match answer with
  | .returned receipt =>
      match validateReviewReceipt receipt job.packet with
      | .ok receipt => s.settle job .delivered now none (some receipt)
      | .error (.delivery code _ retryable) => s.fail o job (some (code, retryable)) now
      | .error _ => s.fail o job none now
  | .threw error => s.fail o job error now

/-! ## Steps -/

inductive Event
  | enqueue (actor : Person) (operationId : String) (input : Value)
      (targetId targetBinding : String) (packet : Value) (now : Nat)
  | claim (now leaseMs maxAttempts : Nat) (exclude : List String) (token : String)
  | receive (packet : Value) (receivedAt : String)
  | returned (o : Options) (job answer now : Nat)
  | threw (o : Options) (job : Nat) (error : Option (String × Bool)) (now : Nat)
  | retry (actor : Person) (id : String) (now : Nat)

/-- `Date.now()` is at most the last date there is. -/
def isDate (now : Nat) : Bool := now ≤ 8640000000000000

/-- `randomUUID` is never drawn twice. -/
def State.fresh (s : State) (token : String) : Bool :=
  isToken token && s.jobs.all fun job => job.leaseToken != some token

omit [Sha256] in
/-- A call that throws leaves the store as it was. -/
def State.after (s : State) {α : Type} (result : Except Failure (α × State)) : State :=
  match result with
  | .ok (_, t) => t
  | .error _ => s

omit [Sha256] in
/-- The receipt of a call of the receiver goes out. -/
def State.answer (s : State) (result : Except Failure (Value × State)) : State :=
  match result with
  | .ok (receipt, t) => { t with answers := receipt :: t.answers }
  | .error _ => s

def State.step (s : State) : Event → Option State
  | .enqueue actor operationId input targetId targetBinding packet now =>
      some (s.after (s.enqueue actor operationId input targetId targetBinding packet now))
  | .claim now leaseMs maxAttempts exclude token =>
      if s.fresh token && isDate now then
        some (s.after (s.claim now leaseMs maxAttempts exclude token))
      else none
  | .receive packet receivedAt =>
      -- `new Date().toISOString()` of a year of four digits.
      if deliveryIso receivedAt then some (s.answer (s.receive packet receivedAt)) else none
  | .returned o job answer now =>
      -- A transport returns a receipt that the receiver gave, to this packet or another.
      match s.jobs[job]?, s.answers[answer]? with
      | some job, some receipt =>
          if isDate now then some (s.after (s.drain o job (.returned receipt) now)) else none
      | _, _ => none
  | .threw o job error now =>
      match s.jobs[job]? with
      | some job =>
          if isDate now then some (s.after (s.drain o job (.threw error) now)) else none
      | none => none
  | .retry actor id now => some (s.after (s.retry actor id now))

end Knowledger.Delivery
