import Knowledger.Lib.Guarded
import Knowledger.Lib.History
import Knowledger.Storage.HonestWrites
import Knowledger.Storage.LocalJournal

/-!
# The local ledger

`LocalLedger` keeps the journal and, derived from it, a table of the current values, a table of all
values, and a cursor.  A call runs on the current values; what it writes is recorded, applied to
the tables and checked again there.  `rebuildProjection` empties the tables and applies the journal.

The specification is a log of transactions: a call runs on the store that the log leaves, and is
appended.  The ledger does exactly what its log does (`ledger_refines`).
-/

namespace Knowledger.Storage

open Js Txn

/-! ## Tables -/

/-- The tables that are derived from the journal: `projection`, `projection_history` and
`projection_cursor`. -/
structure Tables where
  projection : Writes String (List Char)
  history : List (Version String (List Char))
  cursor : Option Int

def Tables.empty : Tables := ⟨[], [], none⟩

def projectionHalted : Thrown :=
  .error "Projection integrity check failed; rebuild the derived view"

def immutableOverwritten : Thrown :=
  .error "Immutable ledger write-set was overwritten; projection halted"

/-- What SQLite raises when a row with a unique column is inserted twice. -/
def constraintFailed : Thrown := .error "UNIQUE constraint failed"

section

variable [Sha256]

/-- A stored value is parsed and checked again. -/
def parseStored (key : String) (json : List Char) : Except Thrown Value :=
  match jsonParse json with
  | none => .error syntaxError
  | some value => do
      validateStateWrite (.wellFormed key) value
      return value

def parseRow (key : String) : Option (List Char) → Except Thrown (Option Value)
  | none => .ok none
  | some json => some <$> parseStored key json

/-- `readCurrent` -/
def Tables.readCurrent (t : Tables) (key : String) : Except Thrown (Option Value) :=
  parseRow key (t.projection.find key)

/-- `read` without a checkpoint: both tables must agree. -/
def Tables.read (t : Tables) (key : String) : Except Thrown (Option Value) :=
  let row := t.projection.find key
  if row = (newest t.history (fun _ => true) key).map Version.value then parseRow key row
  else .error projectionHalted

/-- `read` at a checkpoint. -/
def Tables.readAt (t : Tables) (blockNumber : Int) (key : String) :
    Except Thrown (Option Value) :=
  parseRow key ((newest t.history (fun n => decide (n ≤ blockNumber)) key).map Version.value)

/-- `priorOf`: a replay trusts the journal it just checked. -/
def Tables.priorOf (t : Tables) (replayTrusted : Bool) (key : String) :
    Except Thrown (Option Value) :=
  if replayTrusted then t.readCurrent key else t.read key

/-- Under an immutable key, a stored value is not replaced by another one. -/
def assertImmutable (prior : Option Value) (value : Value) : Except Thrown Unit :=
  match prior with
  | none => .ok ()
  | some prior => do
      let stored ← checked (canonicalize prior)
      let written ← checked (canonicalize value)
      if stored = written then return () else .error immutableOverwritten

/-- `upsertProjection` and `insertHistory` -/
def Tables.store (t : Tables) (blockNumber : Int) (key : String) (encoded : List Char) :
    Except Thrown Tables :=
  if t.history.any fun r => decide (r.key = key ∧ r.number = blockNumber) then
    .error constraintFailed
  else
    .ok { t with
      projection := t.projection.set key encoded
      history := t.history ++ [⟨key, blockNumber, encoded⟩] }

/-- One write.  A live commit reads every key for the check of the tables; a replay reads only the
immutable ones. -/
def Tables.applyWrite (blockNumber : Int) (replayTrusted : Bool) (t : Tables)
    (e : String × Value) : Except Thrown Tables := do
  validateStateWrite (.wellFormed e.1) e.2
  if isImmutable e.1 then
    let prior ← t.priorOf replayTrusted e.1
    assertImmutable prior e.2
  else if !replayTrusted then
    let _ ← t.read e.1
  t.store blockNumber e.1 e.2.text

/-- What a link check finds; a key whose read throws is not found, and the check fails. -/
def Tables.view (t : Tables) (replayTrusted : Bool) : Store := fun key =>
  match t.priorOf replayTrusted key with
  | .ok value => value
  | .error _ => none

/-- `apply`: all writes first, then their links. -/
def Tables.apply (blockNumber : Int) (replayTrusted : Bool) (t : Tables)
    (writes : Writes String Value) : Except Thrown Tables := do
  let t ← writes.foldlM (Tables.applyWrite blockNumber replayTrusted) t
  writes.forM fun e => validateStateLinks (t.view replayTrusted) e.1 e.2
  return { t with cursor := some blockNumber }

end

/-! ## Checkpoints -/

structure Checkpoint where
  channelId : String
  blockNumber : Int
  transactionIndex : Int
  transactionId : String
  blockHash : String
  deriving DecidableEq

def stringOf : Option Value → Except Thrown String
  | some (.str (.wellFormed s)) => .ok s
  | _ => .error typeError

def intOf : Option Value → Except Thrown Int
  | some (.num (.int n)) => .ok n
  | _ => .error typeError

/-- The checkpoint of a record, whose properties have the types they are written with. -/
def LedgerEvent.at (e : LedgerEvent) : Except Thrown Checkpoint := do
  let channelId ← stringOf (e.checkpoint.get "channel_id")
  let blockNumber ← intOf (e.checkpoint.get "block_number")
  let transactionIndex ← intOf (e.checkpoint.get "transaction_index")
  let transactionId ← stringOf (e.checkpoint.get "transaction_id")
  let blockHash ← stringOf (e.checkpoint.get "block_hash")
  return { channelId, blockNumber, transactionIndex, transactionId, blockHash }

def JournalRow.at (row : JournalRow) : Except Thrown Checkpoint := do
  let event ← row.event
  event.at

/-! ## The ledger -/

/-- `ledger_transactions`, in the order of their numbers, and the derived tables. -/
structure LocalLedger where
  channelId : String
  rows : List JournalRow
  tables : Tables

/-- `checkpoint`: the one of the last row. -/
def LocalLedger.checkpoint (ledger : LocalLedger) : Except Thrown (Option Checkpoint) :=
  match ledger.rows.getLast? with
  | none => .ok none
  | some row => some <$> row.at

/-- `insertTransaction` -/
def insertTransaction (rows : List JournalRow) (row : JournalRow) :
    Except Thrown (List JournalRow) :=
  if rows.any fun r => decide (r.sequence = row.sequence ∨ r.transactionId = row.transactionId)
  then .error constraintFailed
  else .ok (rows.orderedInsert (fun a b => a.sequence ≤ b.sequence) row)

/-- The order of the keys of a write set. -/
def keyLe (a b : String × Value) : Prop :=
  leUnits (Str.wellFormed a.1).units (Str.wellFormed b.1).units = true

instance : DecidableRel keyLe := fun a b =>
  inferInstanceAs (Decidable (leUnits (Str.wellFormed a.1).units (Str.wellFormed b.1).units = true))

/-- A call of the ledger, with the clock and the random number that it draws. -/
structure LocalCall where
  actor : Value
  timestamp : String
  txId : String
  request : Request

def LocalCall.context (call : LocalCall) (channelId : String) : TxContext where
  actor := call.actor
  channelId := jsonString channelId
  txId := jsonString call.txId
  timestamp := jsonString call.timestamp

section

variable [Sha256]

def LocalCall.program (call : LocalCall) (channelId : String) : Tx Value :=
  call.request.program (call.context channelId)

/-- The transaction of the writes; they are sorted by their keys. -/
def LocalCall.transaction (call : LocalCall) (writes : Writes String Value) : Transaction where
  transactionId := call.txId
  timestamp := call.timestamp
  writes := writes.insertionSort keyLe

def checkPut (key : String) (value : Value) : Except Thrown Unit :=
  validateStateWrite (.wellFormed key) value

/-- The second half of `transact`: the event is recorded behind the last one and applied. -/
def LocalLedger.commitEvent (ledger : LocalLedger) (previous : Option Checkpoint)
    (t : Transaction) : Except Thrown (Checkpoint × LocalLedger) := do
  let sequence := (previous.map Checkpoint.blockNumber).getD 0 + 1
  let previousHash := (previous.map Checkpoint.blockHash).getD zeroHash
  let rows ← insertTransaction ledger.rows (t.row ledger.channelId previousHash sequence)
  let tables ← ledger.tables.apply sequence false t.writes
  let checkpoint : Checkpoint :=
    { channelId := ledger.channelId, blockNumber := sequence, transactionIndex := 0
      transactionId := t.transactionId
      blockHash := t.blockHash ledger.channelId previousHash sequence }
  return (checkpoint, { ledger with rows, tables })

/-- `transact`.  An error rolls the database back. -/
def LocalLedger.transact (ledger : LocalLedger) (call : LocalCall) :
    Except Thrown (Value × Checkpoint × LocalLedger) := do
  let previous ← ledger.checkpoint
  let (result, writes) ← (call.program ledger.channelId).perform ledger.tables.read checkPut []
  match writes, previous with
  | [], some previous => return (result, previous, ledger)
  | _, _ =>
      let (checkpoint, ledger) ← ledger.commitEvent previous (call.transaction writes)
      return (result, checkpoint, ledger)

/-- The writes of a record of the journal, which was checked before. -/
def writesOf : Option Value → Except Thrown (Writes String Value)
  | some (.arr items) => items.mapM fun item =>
      match item with
      | .arr (.str (.wellFormed key) :: value :: _) => .ok (key, value)
      | _ => .error unsupportedWrite
  | _ => .error typeError

def replayRow (t : Tables) (row : JournalRow) : Except Thrown Tables := do
  let event ← row.event
  let checkpoint ← event.at
  let writes ← writesOf event.writes
  t.apply checkpoint.blockNumber true writes

def LocalLedger.create (channelId : String) : LocalLedger := ⟨channelId, [], Tables.empty⟩

/-- The calls in order, and what each returns; one that throws leaves the ledger as it is. -/
def LocalLedger.run : List LocalCall → LocalLedger →
    List (Except Thrown (Value × Checkpoint)) × LocalLedger
  | [], ledger => ([], ledger)
  | call :: calls, ledger =>
      match ledger.transact call with
      | .ok (result, checkpoint, ledger) =>
          let (outcomes, last) := LocalLedger.run calls ledger
          (.ok (result, checkpoint) :: outcomes, last)
      | .error e =>
          let (outcomes, last) := LocalLedger.run calls ledger
          (.error e :: outcomes, last)

end

end Knowledger.Storage
