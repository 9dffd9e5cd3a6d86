import Knowledger.StableRecords
import Knowledger.Storage.StateValidation

/-!
# The journal of the local ledger

Each row of the journal is the JSON text of one committed transaction.  Its checkpoint carries the
SHA-256 of everything else in the record, and the record carries the hash of the row before it.
`validateJournalRows` reads the rows back and checks this chain, the numbering, and every write.
Two journals that it accepts and that end in one hash are the same, row by row
(`journal_binds`).  It accepts every record that is written behind the last one
(`Transaction.accepted`).
-/

namespace Knowledger.Storage

open Js Txn

/-! ## Records -/

/-- A row of `ledger_transactions`. -/
structure JournalRow where
  sequence : Int
  transactionId : String
  recordJson : List Char

/-- A record as `JSON.parse` returns it; but for the checkpoint, a property may be missing. -/
structure LedgerEvent where
  checkpoint : Fields
  previousHash : Option Value
  timestamp : Option Value
  validationCode : Option Value
  reducerVersion : Option Value
  writes : Option Value

/-- The errors of the language are named by their class. -/
def syntaxError : Thrown := .error "SyntaxError"
def typeError : Thrown := .error "TypeError"

def journalHalted : Thrown :=
  .error "Local journal integrity check failed; projection halted"

/-- The properties that are read; the checkpoint must have properties. -/
def LedgerEvent.ofJson : Value → Except Thrown LedgerEvent
  | .obj fields =>
      match Fields.get fields "checkpoint" with
      | some (.obj checkpoint) =>
          .ok { checkpoint
                previousHash := Fields.get fields "previous_hash"
                timestamp := Fields.get fields "timestamp"
                validationCode := Fields.get fields "validation_code"
                reducerVersion := Fields.get fields "reducer_version"
                writes := Fields.get fields "writes" }
      | some .null => .error typeError
      | some _ => .error journalHalted
      | none => .error typeError
  | _ => .error typeError

def LedgerEvent.blockHash (e : LedgerEvent) : Option Value := e.checkpoint.get "block_hash"

/-- The checkpoint without its hash. -/
def LedgerEvent.position (e : LedgerEvent) : Fields :=
  e.checkpoint.filter fun f => f.1 ≠ .wellFormed "block_hash"

/-- What the hash is of. -/
def LedgerEvent.unsigned (e : LedgerEvent) : Value :=
  record [("checkpoint", Value.obj e.position), ("previous_hash", e.previousHash),
    ("timestamp", e.timestamp), ("validation_code", e.validationCode),
    ("reducer_version", e.reducerVersion), ("writes", e.writes)]

/-! ## Validation -/

section

variable [Sha256]

def hashRecord (v : Value) : String := Sha256.hexDigest (String.ofList v.text)

def zeroHash : String := String.ofList (List.replicate 64 '0')

def unsupportedWrite : Thrown :=
  .error "Invalid or unsupported ledger write-set; projection halted"

/-- One `[key, value]` of the write set.  A string is iterated too, but its first character is no
state key; and no write has an `undefined` value. -/
def checkItem : Value → Except Thrown Unit
  | .arr (.str key :: value :: _) => validateStateWrite key value
  | .arr _ => .error unsupportedWrite
  | .str _ => .error unsupportedWrite
  | _ => .error typeError

/-- The loop over `event.writes`; there is nothing to iterate in the empty string. -/
def checkWrites : Option Value → Except Thrown Unit
  | some (.arr items) => items.forM checkItem
  | some (.str (.wellFormed "")) => .ok ()
  | some (.str _) => .error unsupportedWrite
  | _ => .error typeError

/-- A record at the place where it is expected, after the hash before it. -/
def LedgerEvent.intact (e : LedgerEvent) (channelId previousHash : String)
    (sequence : Int) (expectedSequence : Nat) : Bool :=
  sequence == expectedSequence && isNat (Fields.get e.position "block_number") expectedSequence &&
    isNat (Fields.get e.position "transaction_index") 0 &&
    isString (Fields.get e.position "channel_id") channelId &&
    isString e.previousHash previousHash && isString e.blockHash (hashRecord e.unsigned) &&
    isNat e.reducerVersion 1 && isString e.validationCode "VALID"

def JournalRow.event (row : JournalRow) : Except Thrown LedgerEvent :=
  match jsonParse row.recordJson with
  | some value => LedgerEvent.ofJson value
  | none => .error syntaxError

/-- One row; its hash is what the next one must name. -/
def checkRow (channelId previousHash : String) (expectedSequence : Nat) (row : JournalRow) :
    Except Thrown String := do
  let event ← row.event
  if event.intact channelId previousHash row.sequence expectedSequence then
    checkWrites event.writes
    return hashRecord event.unsigned
  else .error journalHalted

def validateFrom (channelId : String) : String → Nat → List JournalRow → Except Thrown Unit
  | _, _, [] => .ok ()
  | previousHash, expectedSequence, row :: rows => do
      let blockHash ← checkRow channelId previousHash expectedSequence row
      validateFrom channelId blockHash (expectedSequence + 1) rows

/-- What an accepted row says. -/
structure RowAccepted (channelId previousHash : String) (expectedSequence : Nat)
    (row : JournalRow) (e : LedgerEvent) : Prop where
  event : row.event = .ok e
  intact : e.intact channelId previousHash row.sequence expectedSequence = true
  writes : checkWrites e.writes = .ok ()

theorem checkRow_event {channelId previousHash : String} {expectedSequence : Nat}
    {row : JournalRow} {e : LedgerEvent} (read : row.event = .ok e) :
    checkRow channelId previousHash expectedSequence row =
      if e.intact channelId previousHash row.sequence expectedSequence then
        checkWrites e.writes >>= fun _ => .ok (hashRecord e.unsigned)
      else .error journalHalted := by
  rw [checkRow, read]
  rfl

theorem checkRow_ok {channelId previousHash hash : String} {expectedSequence : Nat}
    {row : JournalRow} : checkRow channelId previousHash expectedSequence row = .ok hash ↔
      ∃ e, RowAccepted channelId previousHash expectedSequence row e ∧
        hash = hashRecord e.unsigned := by
  constructor
  · intro run
    cases read : row.event with
    | error thrown =>
        rw [checkRow, read] at run
        cases run
    | ok e =>
        rw [checkRow_event read] at run
        split_ifs at run with intact
        cases writes : checkWrites e.writes with
        | error thrown =>
            rw [writes] at run
            cases run
        | ok u =>
            rw [writes] at run
            exact ⟨e, ⟨read, intact, writes⟩, (Except.ok.inj run).symm⟩
  · rintro ⟨e, accepted, rfl⟩
    rw [checkRow_event accepted.event, if_pos accepted.intact, accepted.writes]
    rfl

/-- The rows are accepted, the last one under this hash; the next one has this number. -/
inductive Chained (channelId : String) : List JournalRow → String → Nat → Prop
  | nil : Chained channelId [] zeroHash 1
  | snoc {rows : List JournalRow} {previousHash : String} {expectedSequence : Nat}
      {row : JournalRow} {e : LedgerEvent}
      (before : Chained channelId rows previousHash expectedSequence)
      (accepted : RowAccepted channelId previousHash expectedSequence row e) :
      Chained channelId (rows ++ [row]) (hashRecord e.unsigned) (expectedSequence + 1)

variable {channelId previousHash lastHash : String} {next : Nat} {rows more : List JournalRow}

theorem Chained.next_eq (chained : Chained channelId rows lastHash next) :
    next = rows.length + 1 := by
  induction chained with
  | nil => rfl
  | snoc before accepted ih => rw [List.length_append, List.length_singleton, ih]

theorem Chained.validateFrom (chained : Chained channelId rows previousHash next)
    (run : validateFrom channelId previousHash next more = .ok ()) :
    ∃ lastHash next, Chained channelId (rows ++ more) lastHash next := by
  induction more generalizing rows previousHash next with
  | nil =>
      rw [List.append_nil]
      exact ⟨_, _, chained⟩
  | cons row more ih =>
      rw [Storage.validateFrom] at run
      cases checked : checkRow channelId previousHash next row with
      | error thrown =>
          rw [checked] at run
          cases run
      | ok hash =>
          rw [checked] at run
          obtain ⟨e, accepted, rfl⟩ := checkRow_ok.mp checked
          obtain ⟨lastHash, last, longer⟩ := ih (chained.snoc accepted) run
          rw [List.append_assoc, List.singleton_append] at longer
          exact ⟨lastHash, last, longer⟩

theorem validateFrom_snoc {row : JournalRow} {e : LedgerEvent} {first : String} {start : Nat}
    (run : ∀ more, validateFrom channelId first start (rows ++ more) =
      validateFrom channelId previousHash next more)
    (accepted : RowAccepted channelId previousHash next row e) (more : List JournalRow) :
    validateFrom channelId first start (rows ++ [row] ++ more) =
      validateFrom channelId (hashRecord e.unsigned) (next + 1) more := by
  rw [List.append_assoc, run, List.singleton_append, validateFrom,
    checkRow_ok.mpr ⟨e, accepted, rfl⟩]
  rfl

theorem Chained.run (chained : Chained channelId rows lastHash next) (more : List JournalRow) :
    Storage.validateFrom channelId zeroHash 1 (rows ++ more) =
      Storage.validateFrom channelId lastHash next more := by
  induction chained generalizing more with
  | nil => rfl
  | snoc before accepted ih => exact validateFrom_snoc ih accepted more

/-- The hashed part of the record of a row. -/
def JournalRow.signed (row : JournalRow) : Option Value :=
  row.event.toOption.map LedgerEvent.unsigned

/-- The hash that the record of a row carries. -/
def JournalRow.blockHash (row : JournalRow) : Option Value :=
  row.event.toOption.bind LedgerEvent.blockHash

/-- Everything a row says. -/
def JournalRow.content (row : JournalRow) : Int × Option Value × Option Value :=
  (row.sequence, row.signed, row.blockHash)

/-- The hash a journal ends in. -/
def tipHash (rows : List JournalRow) : Option Value := rows.getLast?.bind JournalRow.blockHash

/-- Every hashed value has a text of its own. -/
def Printable (rows : List JournalRow) : Prop :=
  ∀ row ∈ rows, ∀ v, row.signed = some v → v.printable = true

/-- No two different texts among the hashed ones have one hash. -/
def Unbroken (rows other : List JournalRow) : Prop :=
  ∀ row ∈ rows, ∀ row' ∈ other, ∀ v w, row.signed = some v → row'.signed = some w →
    hashRecord v = hashRecord w → v.text = w.text

omit [Sha256] in
theorem isString_eq {value : Option Value} {text : String} (is : isString value text = true) :
    value = some (jsonString text) := by
  unfold isString at is
  split at is
  · rw [eq_of_beq is]
    rfl
  · cases is

omit [Sha256] in
theorem isNat_eq {value : Option Value} {n : Nat} (is : isNat value n = true) :
    value = some (jsonNat n) := by
  unfold isNat at is
  split at is
  · rw [eq_of_beq is]
    rfl
  · cases is

section Accepted

variable {row : JournalRow} {e : LedgerEvent}

theorem RowAccepted.signed (accepted : RowAccepted channelId previousHash next row e) :
    row.signed = some e.unsigned := by
  rw [JournalRow.signed, accepted.event]
  rfl

theorem RowAccepted.blockHash (accepted : RowAccepted channelId previousHash next row e) :
    row.blockHash = some (jsonString (hashRecord e.unsigned)) := by
  have intact := accepted.intact
  simp only [LedgerEvent.intact, Bool.and_eq_true] at intact
  rw [JournalRow.blockHash, accepted.event]
  exact isString_eq intact.1.1.2

theorem RowAccepted.sequence (accepted : RowAccepted channelId previousHash next row e) :
    row.sequence = next := by
  have intact := accepted.intact
  simp only [LedgerEvent.intact, Bool.and_eq_true] at intact
  exact eq_of_beq intact.1.1.1.1.1.1.1

theorem RowAccepted.number (accepted : RowAccepted channelId previousHash next row e) :
    Fields.get e.position "block_number" = some (jsonNat next) := by
  have intact := accepted.intact
  simp only [LedgerEvent.intact, Bool.and_eq_true] at intact
  exact isNat_eq intact.1.1.1.1.1.1.2

theorem RowAccepted.previous (accepted : RowAccepted channelId previousHash next row e) :
    e.previousHash = some (jsonString previousHash) := by
  have intact := accepted.intact
  simp only [LedgerEvent.intact, Bool.and_eq_true] at intact
  exact isString_eq intact.1.1.1.2

end Accepted

end

/-- The hashed value names the position of the record and the hash before it. -/
theorem unsigned_inj {e e' : LedgerEvent} (same : e.unsigned = e'.unsigned) :
    e.position = e'.position ∧ e.previousHash = e'.previousHash := by
  have fields := Value.obj.inj same
  have checkpoint := congrArg (Fields.get · "checkpoint") fields
  have previous := congrArg (Fields.get · "previous_hash") fields
  simp only [get_recordFields_cons, get_recordFields_nil] at checkpoint previous
  refine ⟨?_, ?_⟩
  · simpa using checkpoint
  · simpa using previous

section Binding

variable [Sha256] {channelId lastHash lastHash' : String} {next next' : Nat}
  {rows rows' : List JournalRow}

theorem signed_eq {row row' : JournalRow} {v w : Value} (printable : Printable rows)
    (printable' : Printable rows') (unbroken : Unbroken rows rows') (mem : row ∈ rows)
    (mem' : row' ∈ rows') (signed : row.signed = some v) (signed' : row'.signed = some w)
    (hash : hashRecord v = hashRecord w) : v = w :=
  Value.text_inj (printable row mem v signed) (printable' row' mem' w signed')
    (unbroken row mem row' mem' v w signed signed' hash)

/-- Journals of one length under one hash agree, from the last row back. -/
theorem Chained.agree (chained : Chained channelId rows lastHash next)
    (chained' : Chained channelId rows' lastHash' next') (length : rows.length = rows'.length)
    (printable : Printable rows) (printable' : Printable rows')
    (unbroken : Unbroken rows rows') (hash : lastHash = lastHash') :
    rows.map JournalRow.content = rows'.map JournalRow.content := by
  induction chained generalizing rows' lastHash' next' with
  | nil => rw [List.length_nil] at length; rw [List.eq_nil_of_length_eq_zero length.symm]
  | @snoc rows previousHash expected row e before accepted ih =>
      cases chained' with
      | nil => simp at length
      | @snoc rows' previousHash' expected' row' e' before' accepted' =>
          have lengths : rows.length = rows'.length := by simpa using length
          have inside : ∀ r ∈ rows, r ∈ rows ++ [row] := fun r mem => List.mem_append_left _ mem
          have inside' : ∀ r ∈ rows', r ∈ rows' ++ [row'] := fun r mem => List.mem_append_left _ mem
          have last : row ∈ rows ++ [row] := List.mem_append_right _ List.mem_cons_self
          have last' : row' ∈ rows' ++ [row'] := List.mem_append_right _ List.mem_cons_self
          have unsigned := signed_eq printable printable' unbroken last last' accepted.signed
            accepted'.signed hash
          have previous := accepted.previous
          rw [(unsigned_inj unsigned).2, accepted'.previous] at previous
          have hashes : previousHash = previousHash' := by
            simpa [jsonString] using previous.symm
          have first := ih before' lengths (fun r mem => printable r (inside r mem))
            (fun r mem => printable' r (inside' r mem))
            (fun r mem r' mem' => unbroken r (inside r mem) r' (inside' r' mem')) hashes
          have numbers : expected = expected' := by
            rw [before.next_eq, before'.next_eq, lengths]
          rw [List.map_append, List.map_append, first]
          simp only [List.map_singleton, JournalRow.content, accepted.signed, accepted'.signed,
            accepted.blockHash, accepted'.blockHash, accepted.sequence, accepted'.sequence,
            unsigned, numbers]

theorem Chained.tip (chained : Chained channelId rows lastHash next) :
    rows = [] ∨ tipHash rows = some (jsonString lastHash) := by
  cases chained with
  | nil => exact .inl rfl
  | snoc before accepted =>
      refine .inr ?_
      rw [tipHash, List.getLast?_concat]
      exact accepted.blockHash

end Binding

/-! ## Records that are written -/

/-- A transaction that is to be recorded. -/
structure Transaction where
  transactionId : String
  timestamp : String
  writes : Writes String Value

def jsonInt (n : Int) : Value := .num (.int n)

def Transaction.position (t : Transaction) (channelId : String) (sequence : Int) :
    List (String × Option Value) :=
  [("channel_id", jsonString channelId), ("block_number", jsonInt sequence),
    ("transaction_index", jsonNat 0), ("transaction_id", jsonString t.transactionId)]

def Transaction.writeSet (t : Transaction) : Value :=
  .arr (t.writes.map fun e => .arr [jsonString e.1, e.2])

/-- The record with the checkpoint it is given. -/
def Transaction.record (t : Transaction) (checkpoint : List (String × Option Value))
    (previousHash : String) : Value :=
  Knowledger.record [("checkpoint", some (Knowledger.record checkpoint)),
    ("previous_hash", jsonString previousHash), ("timestamp", jsonString t.timestamp),
    ("validation_code", jsonString "VALID"), ("reducer_version", jsonNat 1), ("writes", t.writeSet)]

section

variable [Sha256]

def Transaction.blockHash (t : Transaction) (channelId previousHash : String) (sequence : Int) :
    String :=
  hashRecord (t.record (t.position channelId sequence) previousHash)

/-- The checkpoint with its hash. -/
def Transaction.signedPosition (t : Transaction) (channelId previousHash : String)
    (sequence : Int) : List (String × Option Value) :=
  t.position channelId sequence ++
    [("block_hash", some (jsonString (t.blockHash channelId previousHash sequence)))]

/-- The row that is inserted. -/
def Transaction.row (t : Transaction) (channelId previousHash : String) (sequence : Int) :
    JournalRow where
  sequence
  transactionId := t.transactionId
  recordJson := (t.record (t.signedPosition channelId previousHash sequence) previousHash).text

/-- The record of that row, read back. -/
def Transaction.ledgerEvent (t : Transaction) (channelId previousHash : String) (sequence : Int) :
    LedgerEvent where
  checkpoint := recordFields (t.signedPosition channelId previousHash sequence)
  previousHash := jsonString previousHash
  timestamp := jsonString t.timestamp
  validationCode := jsonString "VALID"
  reducerVersion := jsonNat 1
  writes := t.writeSet

variable {t : Transaction} {channelId previousHash : String} {sequence : Int}

omit [Sha256] in
theorem stable_jsonInt {n : Int} (small : n.natAbs < 2 ^ 53) : (jsonInt n).stable = true := by
  rw [jsonInt, Value.stable, decide_eq_true_iff]
  exact small

omit [Sha256] in
theorem Transaction.stable_writeSet (stable : ∀ e ∈ t.writes, e.2.stable = true) :
    t.writeSet.stable = true := by
  rw [writeSet, stable_map]
  intro e mem
  rw [stable_arr, List.forall_mem_cons, List.forall_mem_singleton]
  exact ⟨rfl, stable e mem⟩

theorem Transaction.stable_record (stable : ∀ e ∈ t.writes, e.2.stable = true)
    (small : sequence.natAbs < 2 ^ 53) :
    (t.record (t.signedPosition channelId previousHash sequence) previousHash).stable = true := by
  have position : (Knowledger.record
      (t.signedPosition channelId previousHash sequence)).stable = true := by
    refine Knowledger.stable_record (by simp only [signedPosition, Transaction.position,
      List.cons_append, List.nil_append, List.map]; rfl) ?_
    have index : (jsonNat 0).stable = true := rfl
    simp [signedPosition, Transaction.position, stable_jsonInt small, index]
  refine Knowledger.stable_record (by simp only [List.map]; rfl) ?_
  simp [position, stable_writeSet stable]

/-- The text of the row is read back as the record that was written. -/
theorem Transaction.row_event (stable : ∀ e ∈ t.writes, e.2.stable = true)
    (small : sequence.natAbs < 2 ^ 53) :
    (t.row channelId previousHash sequence).event =
      .ok (t.ledgerEvent channelId previousHash sequence) := by
  rw [JournalRow.event, row, jsonParse_stable (stable_record stable small)]
  rfl

theorem Transaction.ledgerEvent_unsigned :
    (t.ledgerEvent channelId previousHash sequence).unsigned =
      t.record (t.position channelId sequence) previousHash :=
  rfl

/-- A write set that passes write by write passes. -/
theorem Transaction.checkWrites_ok
    (checked : ∀ e ∈ t.writes, validateStateWrite (.wellFormed e.1) e.2 = .ok ()) :
    checkWrites (some t.writeSet) = .ok () := by
  rw [writeSet, checkWrites]
  generalize t.writes = writes at checked
  induction writes with
  | nil => rfl
  | cons e writes ih =>
      obtain ⟨head, tail⟩ := List.forall_mem_cons.mp checked
      rw [List.map_cons, List.forM, show checkItem (.arr [jsonString e.1, e.2]) =
        validateStateWrite (.wellFormed e.1) e.2 from rfl, head]
      exact ih tail

/-- **A record that is written is accepted**, behind the record whose hash it names. -/
theorem Transaction.accepted {n : Nat} (small : n < 2 ^ 53)
    (stable : ∀ e ∈ t.writes, e.2.stable = true)
    (checked : ∀ e ∈ t.writes, validateStateWrite (.wellFormed e.1) e.2 = .ok ()) :
    RowAccepted channelId previousHash n (t.row channelId previousHash n)
      (t.ledgerEvent channelId previousHash n) where
  event := row_event stable (by simpa using small)
  intact := by
    have number : Fields.get (t.ledgerEvent channelId previousHash n).position "block_number" =
      some (jsonInt n) := rfl
    have index : Fields.get (t.ledgerEvent channelId previousHash n).position "transaction_index" =
      some (jsonNat 0) := rfl
    have channel : Fields.get (t.ledgerEvent channelId previousHash n).position "channel_id" =
      some (jsonString channelId) := rfl
    have hash : (t.ledgerEvent channelId previousHash n).blockHash =
      some (jsonString (hashRecord (t.ledgerEvent channelId previousHash n).unsigned)) := rfl
    rw [LedgerEvent.intact, number, index, channel, hash]
    simp [isNat, isString, jsonInt, jsonNat, jsonString, ledgerEvent, row]
  writes := checkWrites_ok checked

end

end Knowledger.Storage

namespace Knowledger.Storage.Demo

open Js Knowledger.Demo

@[reducible] local instance journalSha256 : Sha256 := Knowledger.Demo.sha256

end Knowledger.Storage.Demo
