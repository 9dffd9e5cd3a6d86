import Knowledger.Storage.LocalLedger

/-!
# The log that a ledger keeps

The specification of the local ledger is a log of transactions.  `ledgerOf` is the ledger of a log:
the rows of its journal, and the tables they are applied to.  A live commit and a replay both lead
from the tables of a log to the tables of the longer log (`Sound.apply`), so every run of calls is
the run of its log (`ledger_refines`), and a reopened ledger is the one that was closed
(`ledger_reopens`).
-/

namespace Knowledger.Storage

open Js Txn

/-! ## Logs -/

abbrev Log := List Transaction

/-- The store that the log leaves. -/
def storeOf (log : Log) : Store := foldBatches (log.map Transaction.writes)

/-- The texts of its write sets. -/
def batchesOf (log : Log) : List (Writes String (List Char)) :=
  log.map fun t => t.writes.spelled Value.text

def tablesOf (log : Log) : Tables where
  projection := (batchesOf log).foldl Writes.merge []
  history := versions (batchesOf log)
  cursor := if log = [] then none else some log.length

theorem storeOf_nil : storeOf [] = Store.empty := rfl

theorem storeOf_snoc (log : Log) (t : Transaction) :
    storeOf (log ++ [t]) = t.writes.over (storeOf log) := by
  rw [storeOf, List.map_append, List.map_singleton, foldBatches_snoc]
  rfl

theorem batchesOf_snoc (log : Log) (t : Transaction) :
    batchesOf (log ++ [t]) = batchesOf log ++ [t.writes.spelled Value.text] := by
  rw [batchesOf, List.map_append]
  rfl

theorem length_batchesOf (log : Log) : (batchesOf log).length = log.length := List.length_map _

theorem fold_batchesOf (log : Log) :
    foldBatches (batchesOf log) = fun k => (storeOf log k).map Value.text := by
  rw [batchesOf, storeOf, ← foldBatches_spelled, List.map_map]
  rfl

theorem storeOf_take (log : Log) (n : Nat) :
    foldBatches ((batchesOf log).take n) = fun k => (storeOf (log.take n) k).map Value.text := by
  rw [← fold_batchesOf, batchesOf, batchesOf, List.map_take]

section

variable [Sha256]

/-- The rows of the journal, and the hash of the last one. -/
def journalOf (channelId : String) (log : Log) : List JournalRow × String :=
  log.foldl (fun (rows, previousHash) t =>
    (rows ++ [t.row channelId previousHash (rows.length + 1 : Nat)],
      t.blockHash channelId previousHash (rows.length + 1 : Nat))) ([], zeroHash)

def rowsOf (channelId : String) (log : Log) : List JournalRow := (journalOf channelId log).1

def hashOf (channelId : String) (log : Log) : String := (journalOf channelId log).2

/-- The checkpoint of a transaction behind the log. -/
def checkpointOf (channelId : String) (log : Log) (t : Transaction) : Checkpoint where
  channelId
  blockNumber := (log.length + 1 : Nat)
  transactionIndex := 0
  transactionId := t.transactionId
  blockHash := t.blockHash channelId (hashOf channelId log) (log.length + 1 : Nat)

/-- The checkpoint of the last transaction. -/
def tipOf (channelId : String) (log : Log) : Option Checkpoint :=
  log.getLast?.map fun t => checkpointOf channelId log.dropLast t

def ledgerOf (channelId : String) (log : Log) : LocalLedger :=
  ⟨channelId, rowsOf channelId log, tablesOf log⟩

/-- The id of the transaction is in the log. -/
def used (log : Log) (t : Transaction) : Bool :=
  log.any fun u => decide (u.transactionId = t.transactionId)

/-- What a call does to a log: the program runs on the store that the log leaves, and what it
writes is checked and appended. -/
def callLog (channelId : String) (log : Log) (call : LocalCall) :
    Except Thrown (Value × Checkpoint × Log) := do
  let (result, writes) ←
    (call.program channelId).perform (fun key => .ok (storeOf log key)) checkPut []
  match writes, tipOf channelId log with
  | [], some tip => return (result, tip, log)
  | _, _ =>
      let t := call.transaction writes
      if used log t then .error constraintFailed
      else return (result, checkpointOf channelId log t, log ++ [t])

/-- The calls in order, and what each returns. -/
def runLog (channelId : String) : List LocalCall → Log →
    List (Except Thrown (Value × Checkpoint)) × Log
  | [], log => ([], log)
  | call :: calls, log =>
      match callLog channelId log call with
      | .ok (result, checkpoint, log) =>
          let (outcomes, last) := runLog channelId calls log
          (.ok (result, checkpoint) :: outcomes, last)
      | .error e =>
          let (outcomes, last) := runLog channelId calls log
          (.error e :: outcomes, last)

/-! ## Journals -/

theorem journalOf_snoc (channelId : String) (log : Log) (t : Transaction) :
    journalOf channelId (log ++ [t]) =
      (rowsOf channelId log ++
        [t.row channelId (hashOf channelId log) ((rowsOf channelId log).length + 1 : Nat)],
      t.blockHash channelId (hashOf channelId log) ((rowsOf channelId log).length + 1 : Nat)) := by
  rw [journalOf, List.foldl_append]
  rfl

theorem length_rowsOf (channelId : String) (log : Log) :
    (rowsOf channelId log).length = log.length := by
  induction log using List.reverseRecOn with
  | nil => rfl
  | append_singleton log t ih =>
      rw [rowsOf, journalOf_snoc, List.length_append, List.length_append, ih]
      rfl

theorem rowsOf_snoc (channelId : String) (log : Log) (t : Transaction) :
    rowsOf channelId (log ++ [t]) = rowsOf channelId log ++
      [t.row channelId (hashOf channelId log) (log.length + 1 : Nat)] := by
  rw [rowsOf, journalOf_snoc, length_rowsOf]

theorem hashOf_snoc (channelId : String) (log : Log) (t : Transaction) :
    hashOf channelId (log ++ [t]) =
      t.blockHash channelId (hashOf channelId log) (log.length + 1 : Nat) := by
  rw [hashOf, journalOf_snoc, length_rowsOf]

theorem tipOf_snoc (channelId : String) (log : Log) (t : Transaction) :
    tipOf channelId (log ++ [t]) = some (checkpointOf channelId log t) := by
  rw [tipOf, List.getLast?_concat, List.dropLast_concat]
  rfl

theorem mem_rowsOf {channelId : String} {log : Log} {row : JournalRow}
    (mem : row ∈ rowsOf channelId log) :
    row.sequence ≤ log.length ∧ ∃ t ∈ log, row.transactionId = t.transactionId := by
  induction log using List.reverseRecOn with
  | nil => cases mem
  | append_singleton log t ih =>
      rw [rowsOf_snoc, List.mem_append, List.mem_singleton] at mem
      rw [List.length_append, List.length_singleton]
      rcases mem with earlier | rfl
      · obtain ⟨bound, u, inside, same⟩ := ih earlier
        exact ⟨by omega, u, List.mem_append_left _ inside, same⟩
      · exact ⟨Int.le_refl _, t, List.mem_append_right _ List.mem_cons_self, rfl⟩

/-- An id that is in the log is in the journal. -/
theorem mem_transactionIds {channelId : String} {log : Log} {t : Transaction} (mem : t ∈ log) :
    ∃ row ∈ rowsOf channelId log, row.transactionId = t.transactionId := by
  induction log using List.reverseRecOn with
  | nil => cases mem
  | append_singleton log u ih =>
      rw [List.mem_append, List.mem_singleton] at mem
      rw [rowsOf_snoc]
      rcases mem with earlier | rfl
      · obtain ⟨row, inside, same⟩ := ih earlier
        exact ⟨row, List.mem_append_left _ inside, same⟩
      · exact ⟨_, List.mem_append_right _ List.mem_cons_self, rfl⟩

/-! ## Sound logs -/

/-- The writes of each transaction were checked, and are honest on the store before it. -/
inductive Sound : Log → Prop
  | nil : Sound []
  | snoc {log : Log} {t : Transaction} (before : Sound log)
      (honest : Honest (storeOf log) t.writes)
      (checked : ∀ e ∈ t.writes, checkPut e.1 e.2 = .ok ()) : Sound (log ++ [t])

theorem Sound.each {log : Log} (sound : Sound log) : ∀ t ∈ log,
    (t.writes.map Prod.fst).Nodup ∧ (∀ e ∈ t.writes, e.2.stable = true) ∧
      ∀ e ∈ t.writes, checkPut e.1 e.2 = .ok () := by
  induction sound with
  | nil => exact List.forall_mem_nil _
  | snoc before honest checked ih =>
      rw [List.forall_mem_append, List.forall_mem_singleton]
      exact ⟨ih, honest.nodup, honest.stable, checked⟩

/-- What is stored is read back. -/
def Readable (s : Store) : Prop :=
  ∀ key value, s key = some value → value.stable = true ∧ checkPut key value = .ok ()

theorem Readable.over {s : Store} {w : Writes String Value} (readable : Readable s)
    (stable : ∀ e ∈ w, e.2.stable = true) (checked : ∀ e ∈ w, checkPut e.1 e.2 = .ok ()) :
    Readable (w.over s) := by
  intro key value stored
  rw [Writes.over_apply] at stored
  rcases found : w.find key with _ | v
  · rw [found, Option.none_or] at stored
    exact readable key value stored
  · rw [found, Option.some_or] at stored
    obtain rfl := Option.some.inj stored
    have mem := Writes.mem_of_find found
    exact ⟨stable _ mem, checked _ mem⟩

theorem Sound.readable {log : Log} (sound : Sound log) : Readable (storeOf log) := by
  induction sound with
  | nil =>
      intro key value stored
      cases stored
  | snoc before honest checked ih =>
      rw [storeOf_snoc]
      exact ih.over honest.stable checked

theorem Sound.nodup_batches {log : Log} (sound : Sound log) :
    ∀ w ∈ batchesOf log, (w.map Prod.fst).Nodup := by
  rw [batchesOf, List.forall_mem_map]
  intro t mem
  rw [Writes.keys_spelled]
  exact (sound.each t mem).1

theorem Sound.take {log : Log} (sound : Sound log) (n : Nat) : Sound (log.take n) := by
  induction sound with
  | nil =>
      rw [List.take_nil]
      exact .nil
  | @snoc log t before honest checked ih =>
      by_cases inside : n ≤ log.length
      · rw [List.take_append_of_le_length inside]
        exact ih
      · rw [List.take_of_length_le (by rw [List.length_append, List.length_singleton]; omega)]
        exact before.snoc honest checked

/-! ## Applying a transaction -/

/-- Both tables show the store. -/
structure Tables.Shows (t : Tables) (s : Store) : Prop where
  current : ∀ key, t.projection.find key = (s key).map Value.text
  latest : ∀ key, (newest t.history (fun _ => true) key).map Version.value =
    (s key).map Value.text

section Applying

variable {t : Tables} {s : Store} {n : Int} {trusted : Bool}

theorem parseStored_text {key : String} {value : Value} (stable : value.stable = true)
    (checked : checkPut key value = .ok ()) : parseStored key value.text = .ok value := by
  rw [parseStored, jsonParse_stable stable]
  rw [checkPut] at checked
  simp only [checked]
  rfl

theorem Readable.parseRow (readable : Readable s) (key : String) :
    parseRow key ((s key).map Value.text) = .ok (s key) := by
  cases stored : s key with
  | none => rfl
  | some value =>
      obtain ⟨stable, checked⟩ := readable key value stored
      rw [Option.map_some, Storage.parseRow, parseStored_text stable checked]
      rfl

theorem Tables.Shows.read (shows_ : t.Shows s) (readable : Readable s) (key : String) :
    t.read key = .ok (s key) := by
  rw [Tables.read, shows_.latest, shows_.current, if_pos rfl, readable.parseRow]

theorem Tables.Shows.priorOf (shows_ : t.Shows s) (readable : Readable s) (key : String) :
    t.priorOf trusted key = .ok (s key) := by
  cases trusted with
  | false => exact shows_.read readable key
  | true =>
      rw [Tables.priorOf, if_pos rfl, readCurrent, shows_.current, readable.parseRow]

theorem Tables.Shows.view (shows_ : t.Shows s) (readable : Readable s) : t.view trusted = s := by
  funext key
  rw [Tables.view, shows_.priorOf readable]

/-- The tables with one more value. -/
def Tables.stored (t : Tables) (n : Int) (e : String × Value) : Tables :=
  { t with
    projection := t.projection.set e.1 e.2.text
    history := t.history ++ [⟨e.1, n, e.2.text⟩] }

theorem Tables.store_ok {e : String × Value}
    (later : ∀ r ∈ t.history, r.key = e.1 → r.number < n) :
    t.store n e.1 e.2.text = .ok (t.stored n e) := by
  refine if_neg fun clash => ?_
  obtain ⟨r, mem, same⟩ := List.any_eq_true.mp clash
  obtain ⟨key, number⟩ := of_decide_eq_true same
  have before := later r mem key
  omega

theorem Tables.Shows.stored (shows_ : t.Shows s) {e : String × Value}
    (later : ∀ r ∈ t.history, r.key = e.1 → r.number < n) :
    (t.stored n e).Shows (Function.update s e.1 (some e.2)) where
  current key := by
    rw [Tables.stored, Writes.find_set, shows_.current]
    by_cases same : e.1 = key
    · subst same
      rw [if_pos rfl, Function.update_self, Option.map_some]
    · rw [if_neg same, Function.update_of_ne (Ne.symm same)]
  latest key := by
    have single : [(⟨e.1, n, e.2.text⟩ : Version String (List Char))] =
      versionsOf n [(e.1, e.2.text)] := rfl
    have after : ∀ v, Writes.find [(e.1, e.2.text)] key = some v →
        ∀ r ∈ t.history, r.key = key → r.number < n := fun v found r mem same => by
      rw [Writes.find_cons] at found
      split_ifs at found with here
      · exact later r mem (same.trans here.symm)
      · cases found
    have once : ([(e.1, e.2.text)].map Prod.fst).Nodup := List.nodup_singleton _
    rw [Tables.stored, single, newest_append once after, if_pos rfl, Writes.find_cons,
      Writes.find_nil]
    by_cases same : e.1 = key
    · subst same
      rw [if_pos rfl, Function.update_self]
      rfl
    · rw [if_neg same, Function.update_of_ne (Ne.symm same), Option.map_none, Option.none_or,
        shows_.latest]

/-- A checked write that keeps immutable records is applied. -/
theorem Tables.Shows.applyWrite (shows_ : t.Shows s) (readable : Readable s) {e : String × Value}
    (checked : checkPut e.1 e.2 = .ok ())
    (immutable : isImmutable e.1 = true → ∀ v, s e.1 = some v → v = e.2)
    (later : ∀ r ∈ t.history, r.key = e.1 → r.number < n) :
    t.applyWrite n trusted e = .ok (t.stored n e) := by
  have canonical : ∃ text, canonicalize e.2 = .ok text := by
    rw [checkPut, validateStateWrite] at checked
    cases texts : canonicalize e.2 with
    | ok text => exact ⟨text, rfl⟩
    | error error =>
        rw [checkStateWrite, texts] at checked
        cases checked
  obtain ⟨text, canonical⟩ := canonical
  have kept : isImmutable e.1 = true → assertImmutable (s e.1) e.2 = .ok () := fun is => by
    cases stored : s e.1 with
    | none => rfl
    | some v =>
        rw [immutable is v stored, assertImmutable, canonical]
        exact if_pos rfl
  rw [checkPut] at checked
  rw [Tables.applyWrite, checked]
  cases is : isImmutable e.1 with
  | true =>
      simp only [if_pos, shows_.priorOf readable]
      change (assertImmutable (s e.1) e.2 >>= fun _ => t.store n e.1 e.2.text) = _
      rw [kept is]
      exact Tables.store_ok later
  | false =>
      cases trusted with
      | true => exact Tables.store_ok later
      | false =>
          simp only [shows_.read readable]
          exact Tables.store_ok later

/-- A checked write set that keeps immutable records is applied, write by write. -/
theorem Tables.Shows.applyAll (shows_ : t.Shows s) (readable : Readable s)
    {w : Writes String Value} (nodup : (w.map Prod.fst).Nodup)
    (stable : ∀ e ∈ w, e.2.stable = true) (checked : ∀ e ∈ w, checkPut e.1 e.2 = .ok ())
    (immutable : ∀ e ∈ w, isImmutable e.1 = true → ∀ v, s e.1 = some v → v = e.2)
    (later : ∀ e ∈ w, ∀ r ∈ t.history, r.key = e.1 → r.number < n) :
    w.foldlM (Tables.applyWrite n trusted) t = .ok { t with
      projection := t.projection.merge (w.spelled Value.text)
      history := t.history ++ versionsOf n (w.spelled Value.text) } ∧
    Tables.Shows { t with
      projection := t.projection.merge (w.spelled Value.text)
      history := t.history ++ versionsOf n (w.spelled Value.text) } (w.over s) := by
  induction w generalizing t s with
  | nil =>
      have same : t.history ++ versionsOf n (Writes.spelled Value.text []) = t.history :=
        List.append_nil _
      rw [same, Writes.over_nil]
      exact ⟨rfl, shows_⟩
  | cons e w ih =>
      rw [List.map_cons, List.nodup_cons] at nodup
      rw [List.forall_mem_cons] at stable checked immutable later
      have next := shows_.stored later.1
      have written : Readable (Function.update s e.1 (some e.2)) := by
        intro key value stored
        by_cases same : key = e.1
        · subst same
          rw [Function.update_self] at stored
          obtain rfl := Option.some.inj stored
          exact ⟨stable.1, checked.1⟩
        · rw [Function.update_of_ne same] at stored
          exact readable key value stored
      have other : ∀ f ∈ w, f.1 ≠ e.1 := fun f mem same =>
        nodup.1 (List.mem_map.mpr ⟨f, mem, same⟩)
      have rest := ih next written nodup.2 stable.2 checked.2
        (fun f mem is v stored => by
          rw [Function.update_of_ne (other f mem)] at stored
          exact immutable.2 f mem is v stored)
        (fun f mem r inside same => by
          rw [Tables.stored, List.mem_append, List.mem_singleton] at inside
          rcases inside with before | rfl
          · exact later.2 f mem r before same
          · exact absurd same.symm (other f mem))
      rw [Writes.over_cons nodup.1, List.foldlM_cons,
        shows_.applyWrite readable checked.1 immutable.1 later.1]
      have history : (t.stored n e).history ++ versionsOf n (Writes.spelled Value.text w) =
          t.history ++ versionsOf n (Writes.spelled Value.text (e :: w)) := by
        rw [Tables.stored, List.append_assoc]
        rfl
      rw [history] at rest
      exact rest

/-- **An honest write set is applied**, live or replayed. -/
theorem Tables.Shows.apply (shows_ : t.Shows s) (readable : Readable s)
    {w : Writes String Value} (honest : Honest s w)
    (checked : ∀ e ∈ w, checkPut e.1 e.2 = .ok ())
    (later : ∀ r ∈ t.history, r.number < n) :
    t.apply n trusted w = .ok
      { projection := t.projection.merge (w.spelled Value.text)
        history := t.history ++ versionsOf n (w.spelled Value.text)
        cursor := some n } := by
  obtain ⟨applied, shown⟩ := @Tables.Shows.applyAll _ t s n trusted shows_ readable w honest.nodup
    honest.stable checked honest.immutable fun e _ r inside _ => later r inside
  have links : ∀ es : List (String × Value), (∀ e ∈ es, e ∈ w) →
      (es.forM fun e => validateStateLinks (w.over s) e.1 e.2) = .ok () := by
    intro es
    induction es with
    | nil => exact fun _ => rfl
    | cons e es ih =>
        intro inside
        rw [List.forall_mem_cons] at inside
        change (validateStateLinks (w.over s) e.1 e.2 >>= fun _ => _) = _
        rw [honest.links e inside.1]
        exact ih inside.2
  rw [Tables.apply, applied]
  change (w.forM (fun e => validateStateLinks (Tables.view _ trusted) e.1 e.2) >>= _) = _
  rw [shown.view (readable.over honest.stable checked), links w fun e mem => mem]
  rfl

end Applying

/-! ## The ledger of a log -/

section Ledger

variable {channelId : String} {log : Log} {t : Transaction}

theorem Sound.shows_ (sound : Sound log) : (tablesOf log).Shows (storeOf log) where
  current key := by
    rw [tablesOf, find_table sound.nodup_batches, fold_batchesOf]
  latest key := by
    rw [tablesOf, newest_all, newest_versions sound.nodup_batches,
      List.take_of_length_le (Nat.le_refl _), fold_batchesOf]

/-- **A transaction behind the log** leads to the tables of the longer log, live or replayed. -/
theorem Sound.apply {trusted : Bool} (sound : Sound log) (honest : Honest (storeOf log) t.writes)
    (checked : ∀ e ∈ t.writes, checkPut e.1 e.2 = .ok ()) :
    (tablesOf log).apply (log.length + 1 : Nat) trusted t.writes = .ok (tablesOf (log ++ [t])) := by
  have later : ∀ r ∈ (tablesOf log).history, r.number < ((log.length + 1 : Nat) : Int) := by
    intro r mem
    have bound := (versions_bound mem).2
    rw [length_batchesOf] at bound
    omega
  rw [sound.shows_.apply sound.readable honest checked later, tablesOf, tablesOf, batchesOf_snoc,
    List.foldl_append, versions_snoc, length_batchesOf,
    if_neg (List.append_ne_nil_of_right_ne_nil log (List.cons_ne_nil t [])), List.length_append]
  rfl

/-- The checkpoint that a row carries. -/
theorem row_at {previousHash : String} {n : Nat} (small : n < 2 ^ 53)
    (stable : ∀ e ∈ t.writes, e.2.stable = true) :
    (t.row channelId previousHash n).at = .ok
      { channelId, blockNumber := n, transactionIndex := 0, transactionId := t.transactionId
        blockHash := t.blockHash channelId previousHash n } := by
  rw [JournalRow.at, Transaction.row_event stable (by simpa using small)]
  rfl

theorem Sound.checkpoint (sound : Sound log) (small : log.length < 2 ^ 53) :
    (ledgerOf channelId log).checkpoint = .ok (tipOf channelId log) := by
  cases sound with
  | nil => rfl
  | @snoc log t before honest checked =>
      rw [List.length_append, List.length_singleton] at small
      rw [LocalLedger.checkpoint, ledgerOf, rowsOf_snoc, List.getLast?_concat, tipOf_snoc]
      simp only [row_at small honest.stable]
      rfl

theorem insertTransaction_ok {row : JournalRow} {rows : List JournalRow}
    (fresh : ∀ r ∈ rows, r.transactionId ≠ row.transactionId)
    (later : ∀ r ∈ rows, r.sequence < row.sequence) :
    insertTransaction rows row = .ok (rows ++ [row]) := by
  have last : rows.orderedInsert (fun a b => a.sequence ≤ b.sequence) row = rows ++ [row] := by
    clear fresh
    induction rows with
    | nil => rfl
    | cons r rows ih =>
        rw [List.forall_mem_cons] at later
        rw [List.orderedInsert, if_neg (by omega), ih later.2, List.cons_append]
  rw [insertTransaction, last]
  refine if_neg fun clash => ?_
  obtain ⟨r, mem, same⟩ := List.any_eq_true.mp clash
  rcases of_decide_eq_true same with sequence | id
  · have before := later r mem
    omega
  · exact fresh r mem id

/-- A new row is refused exactly when its id is in the log. -/
theorem insertTransaction_rowsOf (hash : String) :
    insertTransaction (rowsOf channelId log) (t.row channelId hash (log.length + 1 : Nat)) =
      if used log t then .error constraintFailed
      else .ok (rowsOf channelId log ++ [t.row channelId hash (log.length + 1 : Nat)]) := by
  by_cases again : used log t
  · rw [if_pos again]
    obtain ⟨u, mem, same⟩ := List.any_eq_true.mp again
    obtain ⟨row, inside, id⟩ : ∃ row ∈ rowsOf channelId log, row.transactionId = u.transactionId :=
      mem_transactionIds mem
    refine if_pos (List.any_eq_true.mpr ⟨row, inside, decide_eq_true (.inr ?_)⟩)
    rw [id, of_decide_eq_true same]
    rfl
  · rw [if_neg again]
    refine insertTransaction_ok (fun r mem same => ?_) fun r mem => ?_
    · obtain ⟨-, u, inside, id⟩ := mem_rowsOf mem
      refine again (List.any_eq_true.mpr ⟨u, inside, decide_eq_true ?_⟩)
      rw [← id, same]
      rfl
    · have bound := (mem_rowsOf mem).1
      rw [Transaction.row]
      push_cast
      omega

end Ledger

/-! ## Calls -/

theorem Honest.perm {s : Store} {w w' : Writes String Value} (perm : w.Perm w')
    (honest : Honest s w) : Honest s w' where
  nodup := (perm.map Prod.fst).nodup_iff.mp honest.nodup
  stable e mem := honest.stable e (perm.mem_iff.mpr mem)
  immutable e mem := honest.immutable e (perm.mem_iff.mpr mem)
  links e mem := by
    have same : w'.over s = w.over s := by
      funext k
      rw [Writes.over_apply, Writes.over_apply, Writes.find_perm perm honest.nodup]
    rw [same]
    exact honest.links e (perm.mem_iff.mpr mem)

/-- What holds of a log that calls made. -/
structure Kept (log : Log) : Prop where
  sound : Sound log
  known : Known (storeOf log)

theorem Kept.nil : Kept [] := ⟨.nil, .inl rfl⟩

variable {channelId : String} {log : Log} {call : LocalCall}

/-- What a successful call writes may be appended. -/
theorem Kept.snoc (kept : Kept log) {result : Value} {writes : Writes String Value}
    (run : (call.program channelId).perform (fun key => .ok (storeOf log key)) checkPut [] =
      .ok (result, writes)) :
    Honest (storeOf log) (call.transaction writes).writes ∧
      (∀ e ∈ (call.transaction writes).writes, checkPut e.1 e.2 = .ok ()) ∧
      Kept (log ++ [call.transaction writes]) := by
  obtain ⟨plain, checks⟩ := Program.perform_ok (fun _ => rfl) run
  obtain ⟨honest, reachable⟩ := kept.known.honest plain
  have sorted : writes.Perm (call.transaction writes).writes :=
    (List.perm_insertionSort keyLe writes).symm
  have after : (call.transaction writes).writes.over (storeOf log) = writes.over (storeOf log) := by
    funext k
    rw [Writes.over_apply, Writes.over_apply, Writes.find_perm sorted honest.nodup]
  have checked : ∀ e ∈ (call.transaction writes).writes, checkPut e.1 e.2 = .ok () := by
    intro e mem
    rcases checks e (sorted.mem_iff.mpr mem) with nothing | passes
    · cases nothing
    · exact passes
  refine ⟨honest.perm sorted, checked, kept.sound.snoc (honest.perm sorted) checked, .inr ?_⟩
  rw [storeOf_snoc, after]
  exact reachable

theorem tipOf_number : ((tipOf channelId log).map Checkpoint.blockNumber).getD 0 = log.length := by
  induction log using List.reverseRecOn with
  | nil => rfl
  | append_singleton log t =>
      rw [tipOf_snoc, List.length_append]
      rfl

theorem tipOf_hash :
    ((tipOf channelId log).map Checkpoint.blockHash).getD zeroHash = hashOf channelId log := by
  induction log using List.reverseRecOn with
  | nil => rfl
  | append_singleton log t =>
      rw [tipOf_snoc, hashOf_snoc]
      rfl

/-- A transaction is committed, unless its id is in the log. -/
theorem Sound.commitEvent {t : Transaction} (sound : Sound log)
    (honest : Honest (storeOf log) t.writes) (checked : ∀ e ∈ t.writes, checkPut e.1 e.2 = .ok ()) :
    (ledgerOf channelId log).commitEvent (tipOf channelId log) t =
      if used log t then .error constraintFailed
      else .ok (checkpointOf channelId log t, ledgerOf channelId (log ++ [t])) := by
  rw [LocalLedger.commitEvent, tipOf_number, tipOf_hash]
  change (insertTransaction (rowsOf channelId log)
    (t.row channelId (hashOf channelId log) (log.length + 1 : Nat)) >>= _) = _
  rw [insertTransaction_rowsOf]
  cases used log t with
  | true => rfl
  | false =>
      change ((tablesOf log).apply (log.length + 1 : Nat) false t.writes >>= _) = _
      have longer : ledgerOf channelId (log ++ [t]) = ⟨channelId, rowsOf channelId log ++
          [t.row channelId (hashOf channelId log) (log.length + 1 : Nat)],
          tablesOf (log ++ [t])⟩ := by
        rw [ledgerOf, rowsOf_snoc]
      rw [sound.apply honest checked, longer]
      rfl

/-- The ledger of a log with the outcome of a call. -/
def withLedger (channelId : String) (outcome : Value × Checkpoint × Log) :
    Value × Checkpoint × LocalLedger :=
  (outcome.1, outcome.2.1, ledgerOf channelId outcome.2.2)

/-- **One call.**  The ledger does what its log does. -/
theorem Kept.transact (kept : Kept log) (small : log.length < 2 ^ 53) :
    (ledgerOf channelId log).transact call =
      (callLog channelId log call).map (withLedger channelId) := by
  rw [LocalLedger.transact, kept.sound.checkpoint small, callLog]
  change (Program.perform (tablesOf log).read checkPut (call.program channelId) [] >>= _) = _
  rw [Program.perform_congr (kept.sound.shows_.read kept.sound.readable)]
  cases run : (call.program channelId).perform (fun key => .ok (storeOf log key)) checkPut [] with
  | error e => rfl
  | ok outcome =>
      obtain ⟨result, writes⟩ := outcome
      obtain ⟨honest, checked, -⟩ := kept.snoc run
      have committed := @Sound.commitEvent _ channelId log _ kept.sound honest checked
      cases writes with
      | nil =>
          cases tip : tipOf channelId log with
          | some tip => rfl
          | none =>
              rw [tip] at committed
              change ((ledgerOf channelId log).commitEvent none (call.transaction []) >>= _) =
                Except.map _ (if used log (call.transaction []) then _ else _)
              rw [committed]
              cases used log (call.transaction []) <;> rfl
      | cons e writes =>
          change ((ledgerOf channelId log).commitEvent (tipOf channelId log)
            (call.transaction (e :: writes)) >>= _) =
              Except.map _ (if used log (call.transaction (e :: writes)) then _ else _)
          rw [committed]
          cases used log (call.transaction (e :: writes)) <;> rfl

/-- A call appends at most one transaction, and what held of the log holds of the longer one. -/
theorem Kept.next (kept : Kept log) {result : Value} {checkpoint : Checkpoint} {next : Log}
    (run : callLog channelId log call = .ok (result, checkpoint, next)) :
    Kept next ∧ next.length ≤ log.length + 1 := by
  rw [callLog] at run
  cases ran : (call.program channelId).perform (fun key => .ok (storeOf log key)) checkPut [] with
  | error e =>
      rw [ran] at run
      cases run
  | ok outcome =>
      obtain ⟨r, writes⟩ := outcome
      obtain ⟨-, -, longer⟩ := kept.snoc ran
      have appended : ∀ w, (if used log (call.transaction w) then .error constraintFailed
          else .ok (r, checkpointOf channelId log (call.transaction w),
            log ++ [call.transaction w])) =
          (.ok (result, checkpoint, next) : Except Thrown (Value × Checkpoint × Log)) →
          w = writes → Kept next ∧ next.length ≤ log.length + 1 := by
        rintro w same rfl
        split_ifs at same
        cases same
        exact ⟨longer, by rw [List.length_append, List.length_singleton]⟩
      rw [ran] at run
      cases writes with
      | nil =>
          cases tip : tipOf channelId log with
          | some tip =>
              rw [tip] at run
              cases run
              exact ⟨kept, Nat.le_succ _⟩
          | none =>
              rw [tip] at run
              exact appended [] run rfl
      | cons e writes => exact appended (e :: writes) run rfl

/-! ## Runs -/

theorem Kept.run (kept : Kept log) (calls : List LocalCall)
    (few : log.length + calls.length < 2 ^ 53) :
    LocalLedger.run calls (ledgerOf channelId log) =
        ((runLog channelId calls log).1, ledgerOf channelId (runLog channelId calls log).2) ∧
      Kept (runLog channelId calls log).2 ∧
      (runLog channelId calls log).2.length ≤ log.length + calls.length := by
  induction calls generalizing log with
  | nil => exact ⟨rfl, kept, Nat.le_refl _⟩
  | cons call calls ih =>
      rw [List.length_cons] at few
      rw [LocalLedger.run, runLog, kept.transact (by omega), List.length_cons]
      cases outcome : callLog channelId log call with
      | error e =>
          obtain ⟨same, held, bound⟩ := ih kept (by omega)
          simp only [Except.map, same]
          exact ⟨trivial, held, by omega⟩
      | ok outcome' =>
          obtain ⟨result, checkpoint, next⟩ := outcome'
          obtain ⟨longer, grown⟩ := kept.next outcome
          obtain ⟨same, held, bound⟩ := ih longer (by omega)
          simp only [Except.map, withLedger, same]
          exact ⟨trivial, held, by omega⟩

theorem Kept.create (calls : List LocalCall) (few : calls.length < 2 ^ 53) :
    LocalLedger.run calls (LocalLedger.create channelId) =
        ((runLog channelId calls []).1, ledgerOf channelId (runLog channelId calls []).2) ∧
      Kept (runLog channelId calls []).2 ∧ (runLog channelId calls []).2.length < 2 ^ 53 := by
  have started : 0 + calls.length < 2 ^ 53 := by rwa [Nat.zero_add]
  obtain ⟨same, kept, bound⟩ := @Kept.run _ channelId [] Kept.nil calls started
  exact ⟨same, kept, Nat.lt_of_le_of_lt bound started⟩

theorem Sound.chained (sound : Sound log) (small : log.length < 2 ^ 53) :
    Chained channelId (rowsOf channelId log) (hashOf channelId log) (log.length + 1) := by
  induction sound with
  | nil => exact .nil
  | @snoc log t before honest checked ih =>
      rw [List.length_append, List.length_singleton] at small ⊢
      rw [rowsOf_snoc, hashOf_snoc]
      exact (ih (by omega)).snoc (Transaction.accepted small honest.stable checked)

omit [Sha256] in
theorem writesOf_writeSet (t : Transaction) : writesOf (some t.writeSet) = .ok t.writes := by
  rw [Transaction.writeSet, writesOf]
  generalize t.writes = writes
  induction writes with
  | nil => rfl
  | cons e writes ih =>
      rw [List.map_cons, List.mapM_cons, ih]
      rfl

theorem Sound.replay (sound : Sound log) (small : log.length < 2 ^ 53) :
    (rowsOf channelId log).foldlM replayRow Tables.empty = .ok (tablesOf log) := by
  induction sound with
  | nil => rfl
  | @snoc log t before honest checked ih =>
      rw [List.length_append, List.length_singleton] at small
      have event := @Transaction.row_event _ t channelId (hashOf channelId log)
        ((log.length + 1 : Nat) : Int) honest.stable (by rwa [Int.natAbs_natCast])
      rw [rowsOf_snoc, List.foldlM_append, ih (by omega)]
      change (replayRow (tablesOf log) _ >>= pure) = _
      rw [replayRow, event]
      change ((writesOf (some t.writeSet) >>= fun writes =>
        (tablesOf log).apply (log.length + 1 : Nat) true writes) >>= pure) = _
      rw [writesOf_writeSet]
      change ((tablesOf log).apply (log.length + 1 : Nat) true t.writes >>= pure) = _
      rw [before.apply honest checked]
      rfl

end

end Knowledger.Storage

namespace Knowledger.Storage.Demo

open Js Knowledger.Demo

@[reducible] local instance ledgerSha256 : Sha256 := Knowledger.Demo.sha256

/-- The owner bootstraps the channel and fences it. -/
def fenceCalls : List LocalCall :=
  [⟨(context owner).toTx.actor, "2026-01-01T00:00:00.000Z", "tx-1", .bootstrap config.toJson⟩,
   ⟨(context owner).toTx.actor, "2026-01-01T00:00:01.000Z", "tx-2", .execute fenceCommand.toJson⟩]

theorem fenceCalls_few : fenceCalls.length < 2 ^ 53 := by
  decide

end Knowledger.Storage.Demo
