import Knowledger.Storage.LedgerLog

/-!
# Reads at checkpoints

The ledger reads one key, many keys, or all keys with a prefix, each at a checkpoint or at the tip;
the three run different queries, and at the tip both tables must agree.  On the ledger of a log all
of them find the store that the log had left at the checkpoint (`ledger_reads`), and none of them
throws.
-/

namespace Knowledger.Storage

open Js Txn Uri

/-! ## Queries -/

section

variable [Sha256]

def invalidCheckpoint : Thrown := .error "Invalid checkpoint"
def aheadOfProjection : Thrown := .error "Checkpoint is ahead of projection"
def untrustedCheckpoint : Thrown := .error "Untrusted checkpoint"

def LocalLedger.assertCheckpoint (ledger : LocalLedger) (at_ : Checkpoint) :
    Except Thrown Unit :=
  if at_.channelId ≠ ledger.channelId ∨ at_.transactionIndex ≠ 0 ∨
      isSafeInteger at_.blockNumber = false then .error invalidCheckpoint
  else
    match ledger.rows.find? fun row => decide (row.sequence = at_.blockNumber) with
    | none => .error aheadOfProjection
    | some row => do
        let known ← row.at
        if known.transactionId ≠ at_.transactionId ∨ known.blockHash ≠ at_.blockHash then
          .error untrustedCheckpoint
        else
          match ledger.tables.cursor with
          | some cursor => if cursor < at_.blockNumber then .error aheadOfProjection else return ()
          | none => .error aheadOfProjection

/-- `if (at) this.assertCheckpoint(at)` -/
def LocalLedger.assertAt (ledger : LocalLedger) : Option Checkpoint → Except Thrown Unit
  | none => .ok ()
  | some at_ => ledger.assertCheckpoint at_

/-- `AND sequence <= ?` -/
def upTo : Option Checkpoint → Int → Bool
  | none => fun _ => true
  | some at_ => fun n => decide (n ≤ at_.blockNumber)

def LocalLedger.read (ledger : LocalLedger) (key : String) (at_ : Option Checkpoint) :
    Except Thrown (Option Value) := do
  ledger.assertAt at_
  match at_ with
  | none => ledger.tables.read key
  | some at_ => ledger.tables.readAt at_.blockNumber key

/-- The rows of the latest values up to a checkpoint, of the keys that `p` selects. -/
def Tables.latest (t : Tables) (at_ : Option Checkpoint) (p : String → Bool) :
    List (String × List Char) :=
  (newestRows (t.history.filter fun r => p r.key) (upTo at_)).map fun r => (r.key, r.value)

/-- The rows of the current values, of the keys that `p` selects. -/
def Tables.selected (t : Tables) (p : String → Bool) : List (String × List Char) :=
  t.projection.filter fun e => p e.1

def collectRow (result : Writes String Value) (row : String × List Char) :
    Except Thrown (Writes String Value) := do
  let value ← parseStored row.1 row.2
  return result.set row.1 value

/-- One chunk of `readMany`; at the tip, each row must be the current one. -/
def Tables.readChunk (t : Tables) (at_ : Option Checkpoint) (result : Writes String Value)
    (chunk : List String) : Except Thrown (Writes String Value) :=
  let history := t.latest at_ chunk.contains
  let current := t.selected chunk.contains
  if at_ = none ∧ (current.length ≠ history.length ∨
      history.any fun row => decide (Writes.find current row.1 ≠ some row.2)) then
    .error projectionHalted
  else history.foldlM collectRow result

/-- `unique.slice(start, start + 500)` for each start. -/
def chunks (unique : List String) : List (List String) :=
  (List.range ((unique.length + 499) / 500)).map fun i => (unique.drop (500 * i)).take 500

def LocalLedger.readMany (ledger : LocalLedger) (keys : List String) (at_ : Option Checkpoint) :
    Except Thrown (Writes String Value) := do
  ledger.assertAt at_
  (chunks keys.eraseDups).foldlM (ledger.tables.readChunk at_) []

/-- SQLite compares the UTF-8 of two keys, which is the order of their characters. -/
def rowLe (a b : String × List Char) : Prop := a.1 ≤ b.1

instance : DecidableRel rowLe := fun a b => inferInstanceAs (Decidable (a.1 ≤ b.1))

/-- `state_key >= ? AND state_key < ?` -/
def inRange (start key : String) : Bool :=
  decide (start ≤ key) && decide (key < start ++ "\uffff")

def parseEntry (row : String × List Char) : Except Thrown (String × Value) := do
  let value ← parseStored row.1 row.2
  return (row.1, value)

def LocalLedger.entries (ledger : LocalLedger) (start : String) (at_ : Option Checkpoint) :
    Except Thrown (List (String × Value)) := do
  ledger.assertAt at_
  let history := (ledger.tables.latest at_ (inRange start)).insertionSort rowLe
  let current := (ledger.tables.selected (inRange start)).insertionSort rowLe
  if at_ = none ∧ current ≠ history then .error projectionHalted
  else history.mapM parseEntry

/-- `checkpointForStateCreation`: the record of the first row of the key. -/
def LocalLedger.checkpointForStateCreation (ledger : LocalLedger) (key : String) :
    Except Thrown Checkpoint :=
  let versions := (ledger.tables.history.filter fun r => decide (r.key = key)).insertionSort
    fun a b => a.number ≤ b.number
  let joined := versions.filterMap fun r =>
    ledger.rows.find? fun row => decide (row.sequence = r.number)
  match joined.head? with
  | none => .error (.error "State creation checkpoint is missing")
  | some row => row.at

end

/-! ## Ranges of keys -/

/-- The range of a prefix holds the keys with the prefix, where no key has a character behind
`U+FFFE`. -/
theorem inRange_iff {start key : String} (plain : ∀ c ∈ key.toList, c < '\uffff') :
    inRange start key = true ↔ start.toList <+: key.toList := by
  rw [inRange, Bool.and_eq_true, decide_eq_true_iff, decide_eq_true_iff,
    ← not_lt, String.lt_iff_toList_lt, String.lt_iff_toList_lt, String.toList_append]
  change _ ∧ _ < start.toList ++ ['\uffff'] ↔ _
  generalize start.toList = p
  generalize key.toList = k at plain
  induction p generalizing k with
  | nil =>
      refine ⟨fun _ => List.nil_prefix, fun _ => ⟨List.not_lt_nil k, ?_⟩⟩
      cases k with
      | nil => exact List.nil_lt_cons _ _
      | cons c k => exact List.cons_lt_cons_iff.mpr (.inl (plain c List.mem_cons_self))
  | cons a p ih =>
      cases k with
      | nil => simp
      | cons c k =>
          rw [List.forall_mem_cons] at plain
          rw [List.cons_prefix_cons, ← ih k plain.2, List.cons_append, List.cons_lt_cons_iff,
            List.cons_lt_cons_iff, not_or]
          constructor
          · rintro ⟨⟨behind, same⟩, before | ⟨rfl, before⟩⟩
            · exact absurd before behind
            · exact ⟨rfl, fun less => same ⟨rfl, less⟩, before⟩
          · rintro ⟨rfl, behind, before⟩
            exact ⟨⟨lt_irrefl _, fun less => behind less.2⟩, .inr ⟨rfl, before⟩⟩

theorem unreserved_lt {c : Char} (plain : unreserved c = true) : c < '\uffff' := by
  rw [unreserved] at plain
  simp only [Bool.or_eq_true, beq_iff_eq] at plain
  rcases plain with ((((((((( named | rfl) | rfl) | rfl) | rfl) | rfl) | rfl) | rfl) | rfl) | rfl)
  · simp only [Char.isAlphanum, Char.isAlpha, Char.isUpper, Char.isLower, Char.isDigit,
      Bool.or_eq_true, Bool.and_eq_true, decide_eq_true_eq] at named
    rw [Char.lt_def, UInt32.lt_iff_toNat_lt]
    rcases named with (upper | lower) | digit
    · exact Nat.lt_of_le_of_lt (UInt32.le_iff_toNat_le.mp upper.2) (by decide)
    · exact Nat.lt_of_le_of_lt (UInt32.le_iff_toNat_le.mp lower.2) (by decide)
    · exact Nat.lt_of_le_of_lt (UInt32.le_iff_toNat_le.mp digit.2) (by decide)
  all_goals decide

theorem unreserved_kind (k : KeyPrefix) : k.kind.toList.all unreserved = true := by
  cases k <;> decide

/-- A key that is accepted has no character behind `U+FFFE`. -/
theorem plain_key [Sha256] {key : String} {value : Value} (checked : checkPut key value = .ok ()) :
    ∀ c ∈ key.toList, c < '\uffff' := by
  obtain ⟨k, same⟩ := validateStateWrite_ok checked
  rw [Str.wellFormed.inj same, Key.text]
  intro c mem
  rw [stateKey_eq] at mem
  rcases mem_joinWith mem with rfl | ⟨part, inside, mem⟩
  · decide
  · have spelled : unreserved c = true ∨ c = '%' := by
      simp only [keyParts, List.mem_cons, List.mem_map] at inside
      rcases inside with rfl | rfl | rfl | ⟨argument, _, rfl⟩
      · exact .inl (List.all_eq_true.mp (by decide) c mem)
      · exact .inl (List.all_eq_true.mp (by decide) c mem)
      · exact .inl (List.all_eq_true.mp (unreserved_kind k.kind) c mem)
      · exact mem_encodeURIComponent mem
    rcases spelled with plain | rfl
    · exact unreserved_lt plain
    · decide

/-- The chunks hold what is asked for. -/
theorem mem_chunks {unique : List String} {key : String} :
    (∃ chunk ∈ chunks unique, key ∈ chunk) ↔ key ∈ unique := by
  constructor
  · rintro ⟨chunk, listed, mem⟩
    obtain ⟨i, -, rfl⟩ := List.mem_map.mp listed
    exact List.mem_of_mem_drop (List.mem_of_mem_take mem)
  · intro mem
    obtain ⟨j, bound, rfl⟩ := List.mem_iff_getElem.mp mem
    refine ⟨_, List.mem_map.mpr ⟨j / 500, List.mem_range.mpr (by omega), rfl⟩, ?_⟩
    refine List.mem_iff_getElem.mpr ⟨j % 500, ?_, ?_⟩
    · rw [List.length_take, List.length_drop]
      omega
    · rw [List.getElem_take, List.getElem_drop]
      congr 1
      omega

/-! ## Rows of a store -/

/-- The rows are the texts of the store under the keys that `p` selects, in some order. -/
structure Lists (rows : List (String × List Char)) (s : Store) (p : String → Bool) : Prop where
  nodup : (rows.map Prod.fst).Nodup
  mem : ∀ key text, (key, text) ∈ rows ↔ p key = true ∧ (s key).map Value.text = some text

section Rows

variable [Sha256] {rows rows' : List (String × List Char)} {s : Store} {p : String → Bool}

omit [Sha256] in
theorem Lists.perm (lists : Lists rows s p) (lists' : Lists rows' s p) : rows.Perm rows' := by
  refine (List.perm_ext_iff_of_nodup lists.nodup.of_map lists'.nodup.of_map).mpr fun row => ?_
  rw [show row = (row.1, row.2) from rfl, lists.mem, lists'.mem]

omit [Sha256] in
/-- Sorted by their keys, the rows are determined by the store. -/
theorem Lists.sorted_eq (lists : Lists rows s p) (lists' : Lists rows' s p) :
    rows.insertionSort rowLe = rows'.insertionSort rowLe := by
  have total : Std.Total rowLe := ⟨fun a b => le_total a.1 b.1⟩
  have trans : IsTrans (String × List Char) rowLe := ⟨fun _ _ _ => le_trans⟩
  refine List.Perm.eq_of_pairwise ?_ (List.pairwise_insertionSort rowLe rows)
    (List.pairwise_insertionSort rowLe rows') ?_
  · intro a b mem mem' ab ba
    have key : a.1 = b.1 := le_antisymm ab ba
    have first := ((lists.mem a.1 a.2).mp ((List.mem_insertionSort rowLe).mp mem)).2
    have second := ((lists'.mem b.1 b.2).mp ((List.mem_insertionSort rowLe).mp mem')).2
    rw [key, second] at first
    exact Prod.ext key (Option.some.inj first).symm
  · exact ((List.perm_insertionSort _ _).trans (lists.perm lists')).trans
      (List.perm_insertionSort _ _).symm

/-- The value of a row. -/
theorem Lists.parse (lists : Lists rows s p) (readable : Readable s)
    {row : String × List Char} (mem : row ∈ rows) :
    ∃ value, s row.1 = some value ∧ parseStored row.1 row.2 = .ok value := by
  obtain ⟨-, stored⟩ := (lists.mem row.1 row.2).mp mem
  obtain ⟨value, found, text⟩ := Option.map_eq_some_iff.mp stored
  obtain ⟨stable, checked⟩ := readable row.1 value found
  refine ⟨value, found, ?_⟩
  rw [← text]
  exact parseStored_text stable checked

/-- Rows that are collected are found under their keys. -/
theorem collect_rows {result : Writes String Value} (nodup : (rows.map Prod.fst).Nodup)
    (parse : ∀ row ∈ rows, ∃ value, s row.1 = some value ∧ parseStored row.1 row.2 = .ok value) :
    ∃ found, rows.foldlM collectRow result = .ok found ∧ ∀ key,
      found.find key = if key ∈ rows.map Prod.fst then s key else result.find key := by
  induction rows generalizing result with
  | nil => exact ⟨result, rfl, fun key => (if_neg List.not_mem_nil).symm⟩
  | cons row rows ih =>
      rw [List.map_cons, List.nodup_cons] at nodup
      rw [List.forall_mem_cons] at parse
      obtain ⟨value, stored, parsed⟩ := parse.1
      obtain ⟨found, run, each⟩ := @ih (result.set row.1 value) nodup.2 parse.2
      refine ⟨found, ?_, fun key => ?_⟩
      · rw [List.foldlM_cons, collectRow, parsed]
        exact run
      · rw [each, Writes.find_set, List.map_cons]
        by_cases later : key ∈ rows.map Prod.fst
        · rw [if_pos later, if_pos (List.mem_cons_of_mem _ later)]
        · rw [if_neg later]
          by_cases here : row.1 = key
          · subst here
            rw [if_pos rfl, if_pos List.mem_cons_self, stored]
          · rw [if_neg here, if_neg]
            rw [List.mem_cons, not_or]
            exact ⟨Ne.symm here, later⟩

/-- Rows that are parsed are the entries of the store. -/
theorem parse_rows
    (parse : ∀ row ∈ rows, ∃ value, s row.1 = some value ∧ parseStored row.1 row.2 = .ok value) :
    ∃ es : List (String × Value), rows.mapM parseEntry = .ok es ∧
      es.map Prod.fst = rows.map Prod.fst ∧ ∀ e ∈ es, s e.1 = some e.2 := by
  induction rows with
  | nil => exact ⟨[], rfl, rfl, List.forall_mem_nil _⟩
  | cons row rows ih =>
      rw [List.forall_mem_cons] at parse
      obtain ⟨value, stored, parsed⟩ := parse.1
      obtain ⟨es, run, keys, each⟩ := ih parse.2
      refine ⟨(row.1, value) :: es, ?_, ?_, ?_⟩
      · rw [List.mapM_cons, parseEntry, parsed, run]
        rfl
      · rw [List.map_cons, List.map_cons, keys]
      · rw [List.forall_mem_cons]
        exact ⟨stored, each⟩

end Rows

/-! ## Points of a log -/

/-- What the ledger of a log shows at a checkpoint, or at its tip: the log up to there. -/
inductive Point [Sha256] (channelId : String) : Log → Option Checkpoint → Log → Prop
  | tip {log : Log} : Point channelId log none log
  | commit {before after : Log} {t : Transaction} :
      Point channelId (before ++ t :: after) (some (checkpointOf channelId before t))
        (before ++ [t])

section Points

variable [Sha256] {channelId : String} {log seen : Log} {at_ : Option Checkpoint}

theorem Point.take (point : Point channelId log at_ seen) : log.take seen.length = seen := by
  cases point with
  | tip => exact List.take_of_length_le (Nat.le_refl _)
  | @commit before after t =>
      rw [show before ++ t :: after = (before ++ [t]) ++ after from List.append_cons before t after,
        List.take_left]

theorem Point.number {at_ : Checkpoint} (point : Point channelId log (some at_) seen) :
    at_.blockNumber = seen.length := by
  cases point with
  | commit =>
      rw [List.length_append]
      rfl

theorem Point.upTo (point : Point channelId log at_ seen) {r : Version String (List Char)}
    (mem : r ∈ versions (batchesOf log)) :
    Storage.upTo at_ r.number = decide (r.number ≤ seen.length) := by
  cases point with
  | tip =>
      have bound := (versions_bound mem).2
      rw [length_batchesOf] at bound
      exact (decide_eq_true bound).symm
  | @commit before after t =>
      rw [List.length_append]
      rfl

theorem find_row (channelId : String) (before : Log) (t : Transaction) (after : Log) :
    (rowsOf channelId (before ++ [t] ++ after)).find?
        (fun row => decide (row.sequence = ((before.length + 1 : Nat) : Int))) =
      some (t.row channelId (hashOf channelId before) (before.length + 1 : Nat)) := by
  induction after using List.reverseRecOn with
  | nil =>
      have earlier : (rowsOf channelId before).find?
          (fun row => decide (row.sequence = ((before.length + 1 : Nat) : Int))) = none := by
        refine List.find?_eq_none.mpr fun row mem same => ?_
        have bound := (mem_rowsOf mem).1
        rw [of_decide_eq_true same] at bound
        omega
      rw [List.append_nil, rowsOf_snoc, List.find?_append, earlier, Option.none_or,
        List.find?_singleton]
      exact if_pos (decide_eq_true rfl)
  | append_singleton after u ih =>
      rw [← List.append_assoc, rowsOf_snoc, List.find?_append, ih, Option.some_or]

theorem isSafeInteger_ofNat {n : Nat} (small : n < 2 ^ 53) : isSafeInteger n = true := by
  rw [isSafeInteger, Bool.and_eq_true, decide_eq_true_iff, decide_eq_true_iff, maxSafeInteger]
  omega

theorem Point.assertAt (point : Point channelId log at_ seen) (sound : Sound log)
    (small : log.length < 2 ^ 53) : (ledgerOf channelId log).assertAt at_ = .ok () := by
  cases point with
  | tip => rfl
  | @commit before after t =>
      have length : (before ++ t :: after).length = before.length + 1 + after.length := by
        rw [List.length_append, List.length_cons]
        omega
      rw [length] at small
      have stable := (sound.each t (List.mem_append_right _ List.mem_cons_self)).2.1
      have row := find_row channelId before t after
      rw [← List.append_cons] at row
      have safe : isSafeInteger ((before.length + 1 : Nat) : Int) = true :=
        isSafeInteger_ofNat (by omega)
      have known : (t.row channelId (hashOf channelId before) (before.length + 1 : Nat)).at =
          .ok (checkpointOf channelId before t) := row_at (by omega) stable
      have cursor : (tablesOf (before ++ t :: after)).cursor =
          some ((before.length + 1 + after.length : Nat) : Int) := by
        rw [← length]
        exact if_neg (List.append_ne_nil_of_right_ne_nil _ (List.cons_ne_nil _ _))
      rw [LocalLedger.assertAt, LocalLedger.assertCheckpoint, if_neg]
      · change (match (rowsOf channelId (before ++ t :: after)).find?
          (fun row => decide (row.sequence = ((before.length + 1 : Nat) : Int))) with
          | none => _ | some row => _) = _
        rw [row]
        simp only [known]
        change (if _ ∨ _ then _ else match (tablesOf (before ++ t :: after)).cursor with
          | some cursor => if cursor < ((before.length + 1 : Nat) : Int) then _ else _
          | none => _) = _
        rw [if_neg (by simp), cursor]
        exact if_neg (by omega)
      · rintro (other | other | large)
        · exact other rfl
        · exact other rfl
        · rw [show (checkpointOf channelId before t).blockNumber =
            ((before.length + 1 : Nat) : Int) from rfl, safe] at large
          cases large

/-- The rows of the latest values up to the point. -/
theorem Point.latest (point : Point channelId log at_ seen) (sound : Sound log)
    (p : String → Bool) : Lists ((tablesOf log).latest at_ p) (storeOf seen) p := by
  have kept : ((tablesOf log).history.filter fun r => p r.key).filter
      (fun r => Storage.upTo at_ r.number) =
      ((versions (batchesOf log)).filter fun r => p r.key).filter
      (fun r => decide (r.number ≤ (seen.length : Int))) :=
    List.filter_congr fun r mem => point.upTo (List.mem_of_mem_filter mem)
  have same : (tablesOf log).latest at_ p =
      ((newestRows (versions (batchesOf log)) fun n => decide (n ≤ seen.length)).filter
        fun r => p r.key).map fun r => (r.key, r.value) := by
    rw [Tables.latest, ← newestRows_filter, newestRows, newestRows, kept]
  have spelled : foldBatches ((batchesOf log).take seen.length) =
      fun key => (storeOf seen key).map Value.text := by
    rw [storeOf_take, point.take]
  rw [same]
  constructor
  · rw [List.map_map]
    exact (nodup_newestRows sound.nodup_batches seen.length).sublist
      (List.filter_sublist.map Version.key)
  · intro key text
    rw [List.mem_map]
    have rows := @mem_newestRows_versions _ _ _ _ key sound.nodup_batches seen.length text
    rw [spelled] at rows
    rw [← rows]
    constructor
    · rintro ⟨r, mem, same⟩
      obtain ⟨rfl, rfl⟩ := Prod.mk.inj same
      obtain ⟨inside, selected⟩ := List.mem_filter.mp mem
      exact ⟨selected, r, inside, rfl, rfl⟩
    · rintro ⟨selected, r, inside, rfl, rfl⟩
      exact ⟨r, List.mem_filter.mpr ⟨inside, selected⟩, rfl⟩

/-- The rows of the current values. -/
theorem Sound.selected (sound : Sound log) (p : String → Bool) :
    Lists ((tablesOf log).selected p) (storeOf log) p where
  nodup := (nodup_table (batchesOf log)).sublist (List.filter_sublist.map Prod.fst)
  mem key text := by
    have nodup := nodup_table (batchesOf log)
    rw [Tables.selected, List.mem_filter, and_comm, ← sound.shows_.current]
    refine and_congr_right fun _ => ⟨Writes.find_of_mem nodup, Writes.mem_of_find⟩

/-! ## Reads -/

theorem Point.read (point : Point channelId log at_ seen) (sound : Sound log)
    (small : log.length < 2 ^ 53) (key : String) :
    (ledgerOf channelId log).read key at_ = .ok (storeOf seen key) := by
  unfold LocalLedger.read
  rw [point.assertAt sound small]
  have taken := point.take
  have seen_sound : Sound seen := taken ▸ sound.take seen.length
  cases point with
  | tip => exact sound.shows_.read sound.readable key
  | @commit before after t =>
      change (tablesOf (before ++ t :: after)).readAt ((before.length + 1 : Nat) : Int) key = _
      rw [List.length_append] at taken
      rw [Tables.readAt, tablesOf, newest_versions sound.nodup_batches, storeOf_take]
      change Storage.parseRow key ((storeOf (List.take (before.length + [t].length) _) key).map
        Value.text) = _
      rw [taken, seen_sound.readable.parseRow]

theorem Point.readChunk (point : Point channelId log at_ seen) (sound : Sound log)
    (result : Writes String Value) (chunk : List String) :
    ∃ found, (tablesOf log).readChunk at_ result chunk = .ok found ∧ ∀ key,
      found.find key = if key ∈ chunk ∧ (storeOf seen key).isSome then storeOf seen key
        else result.find key := by
  have lists := point.latest sound chunk.contains
  have seen_sound : Sound seen := point.take ▸ sound.take seen.length
  obtain ⟨found, run, each⟩ := @collect_rows _ _ _ result lists.nodup
    fun row mem => lists.parse seen_sound.readable mem
  refine ⟨found, ?_, fun key => ?_⟩
  · rw [Tables.readChunk, if_neg, run]
    rintro ⟨rfl, differs⟩
    cases point with
    | tip =>
        have current := sound.selected chunk.contains
        rcases differs with length | row
        · exact length (current.perm lists).length_eq
        · obtain ⟨row, mem, other⟩ := List.any_eq_true.mp row
          refine of_decide_eq_true other (Writes.find_of_mem current.nodup ?_)
          exact (current.perm lists).mem_iff.mpr mem
  · rw [each]
    refine if_congr ?_ rfl rfl
    rw [List.mem_map]
    constructor
    · rintro ⟨row, mem, rfl⟩
      obtain ⟨inside, stored⟩ := (lists.mem row.1 row.2).mp mem
      obtain ⟨value, found, -⟩ := Option.map_eq_some_iff.mp stored
      exact ⟨List.contains_iff_mem.mp inside, Option.isSome_iff_exists.mpr ⟨value, found⟩⟩
    · rintro ⟨inside, stored⟩
      obtain ⟨value, found⟩ := Option.isSome_iff_exists.mp stored
      refine ⟨(key, value.text), (lists.mem key _).mpr ⟨List.contains_iff_mem.mpr inside, ?_⟩, rfl⟩
      rw [found, Option.map_some]

theorem Point.readMany (point : Point channelId log at_ seen) (sound : Sound log)
    (small : log.length < 2 ^ 53) (keys : List String) :
    ∃ found, (ledgerOf channelId log).readMany keys at_ = .ok found ∧ ∀ key,
      found.find key = if key ∈ keys then storeOf seen key else none := by
  have each : ∀ (parts : List (List String)) (result : Writes String Value),
      ∃ found, parts.foldlM ((tablesOf log).readChunk at_) result = .ok found ∧ ∀ key,
        found.find key = if (∃ chunk ∈ parts, key ∈ chunk) ∧ (storeOf seen key).isSome then
          storeOf seen key else result.find key := by
    intro parts
    induction parts with
    | nil => exact fun result => ⟨result, rfl, fun key => by simp⟩
    | cons chunk parts ih =>
        intro result
        obtain ⟨next, first, here⟩ := point.readChunk sound result chunk
        obtain ⟨found, rest, later⟩ := ih next
        refine ⟨found, ?_, fun key => ?_⟩
        · rw [List.foldlM_cons, first]
          exact rest
        · rw [later, here]
          by_cases stored : (storeOf seen key).isSome
          · by_cases behind : ∃ chunk ∈ parts, key ∈ chunk
            · simp [behind, stored]
            · simp [behind, stored]
          · simp [stored]
  obtain ⟨found, run, spec⟩ := each (chunks keys.eraseDups) []
  refine ⟨found, ?_, fun key => ?_⟩
  · rw [LocalLedger.readMany, point.assertAt sound small]
    exact run
  · rw [spec, Writes.find_nil]
    by_cases asked : key ∈ keys
    · rw [if_pos asked]
      have inside := mem_chunks.mpr (List.mem_eraseDups.mpr asked)
      cases stored : storeOf seen key with
      | none => simp
      | some value => exact if_pos ⟨inside, rfl⟩
    · rw [if_neg asked, if_neg]
      exact fun found => asked (List.mem_eraseDups.mp (mem_chunks.mp found.1))

theorem Point.entries (point : Point channelId log at_ seen) (sound : Sound log)
    (small : log.length < 2 ^ 53) (start : String) :
    ∃ es, (ledgerOf channelId log).entries start at_ = .ok es ∧
      (es.map Prod.fst).Pairwise (· < ·) ∧ ∀ key value,
        (key, value) ∈ es ↔ start.toList <+: key.toList ∧ storeOf seen key = some value := by
  have seen_sound : Sound seen := point.take ▸ sound.take seen.length
  have lists := point.latest sound (inRange start)
  have sorted : (((tablesOf log).latest at_ (inRange start)).insertionSort rowLe).Perm
      ((tablesOf log).latest at_ (inRange start)) := List.perm_insertionSort _ _
  have ordered : Lists (((tablesOf log).latest at_ (inRange start)).insertionSort rowLe)
      (storeOf seen) (inRange start) :=
    ⟨(sorted.map Prod.fst).nodup_iff.mpr lists.nodup,
      fun key text => sorted.mem_iff.trans (lists.mem key text)⟩
  obtain ⟨es, run, keys, each⟩ := parse_rows fun row mem => ordered.parse seen_sound.readable mem
  refine ⟨es, ?_, ?_, fun key value => ?_⟩
  · rw [LocalLedger.entries, point.assertAt sound small]
    change (if _ then _ else List.mapM parseEntry _) = _
    rw [if_neg]
    · exact run
    · rintro ⟨rfl, differs⟩
      cases point with
      | tip => exact differs ((sound.selected (inRange start)).sorted_eq lists)
  · rw [keys]
    have total : Std.Total rowLe := ⟨fun a b => le_total a.1 b.1⟩
    have trans : IsTrans (String × List Char) rowLe := ⟨fun _ _ _ => le_trans⟩
    have le := List.pairwise_insertionSort rowLe ((tablesOf log).latest at_ (inRange start))
    have other := List.pairwise_map.mp ordered.nodup
    exact List.pairwise_map.mpr ((le.and other).imp
      fun both => lt_of_le_of_ne both.1 both.2)
  · have plain : ∀ value, storeOf seen key = some value → ∀ c ∈ key.toList, c < '\uffff' :=
      fun value stored => plain_key (seen_sound.readable key value stored).2
    constructor
    · intro mem
      have stored := each _ mem
      have listed : key ∈ es.map Prod.fst := List.mem_map.mpr ⟨_, mem, rfl⟩
      rw [keys] at listed
      obtain ⟨row, inside, rfl⟩ := List.mem_map.mp listed
      have selected := ((ordered.mem row.1 row.2).mp inside).1
      exact ⟨(inRange_iff (plain value stored)).mp selected, stored⟩
    · rintro ⟨starts, stored⟩
      have selected := (inRange_iff (plain value stored)).mpr starts
      have inside := (ordered.mem key value.text).mpr ⟨selected, by rw [stored, Option.map_some]⟩
      have listed : key ∈ es.map Prod.fst := keys ▸ List.mem_map.mpr ⟨_, inside, rfl⟩
      obtain ⟨e, mem, rfl⟩ := List.mem_map.mp listed
      have same := each e mem
      rw [stored] at same
      rwa [Option.some.inj same]

/-! ## Checkpoints -/

/-- A row of the journal is the record of a transaction of the log. -/
theorem row_mem {row : JournalRow} (mem : row ∈ rowsOf channelId log) : ∃ before t after,
    log = before ++ t :: after ∧
      row = t.row channelId (hashOf channelId before) (before.length + 1 : Nat) := by
  induction log using List.reverseRecOn with
  | nil => cases mem
  | append_singleton log u ih =>
      rw [rowsOf_snoc, List.mem_append, List.mem_singleton] at mem
      rcases mem with earlier | rfl
      · obtain ⟨before, t, after, rfl, same⟩ := ih earlier
        exact ⟨before, t, after ++ [u], by rw [List.append_assoc, List.cons_append], same⟩
      · exact ⟨log, u, [], rfl, rfl⟩

/-- **Only committed checkpoints are accepted.** -/
theorem Sound.accepts (sound : Sound log) (small : log.length < 2 ^ 53) :
    (ledgerOf channelId log).assertAt at_ = .ok () ↔ ∃ seen, Point channelId log at_ seen := by
  constructor
  · intro run
    cases at_ with
    | none => exact ⟨log, .tip⟩
    | some at_ =>
        rw [LocalLedger.assertAt, LocalLedger.assertCheckpoint] at run
        split_ifs at run with valid
        rw [not_or, not_or, not_not, not_not] at valid
        obtain ⟨channel, index, -⟩ := valid
        cases found : (ledgerOf channelId log).rows.find?
            (fun row => decide (row.sequence = at_.blockNumber)) with
        | none =>
            rw [found] at run
            cases run
        | some row =>
            rw [found] at run
            have number : row.sequence = at_.blockNumber := by simpa using List.find?_some found
            obtain ⟨before, t, after, rfl, rfl⟩ := row_mem (List.mem_of_find?_eq_some found)
            have stable := (sound.each t (List.mem_append_right _ List.mem_cons_self)).2.1
            rw [List.length_append, List.length_cons] at small
            have known : (t.row channelId (hashOf channelId before) (before.length + 1 : Nat)).at =
                .ok (checkpointOf channelId before t) := row_at (by omega) stable
            simp only [known] at run
            change (if (checkpointOf channelId before t).transactionId ≠ at_.transactionId ∨
              (checkpointOf channelId before t).blockHash ≠ at_.blockHash then _ else _) = _ at run
            split_ifs at run with same
            rw [not_or, not_not, not_not] at same
            have exact_ : at_ = checkpointOf channelId before t := by
              cases at_
              simp only [checkpointOf] at same ⊢
              simp only [ledgerOf] at channel
              rw [Checkpoint.mk.injEq]
              exact ⟨channel, number.symm, index, same.1.symm, same.2.symm⟩
            rw [exact_]
            exact ⟨before ++ [t], .commit⟩
  · rintro ⟨seen, point⟩
    exact point.assertAt sound small

/-! ## Creation -/

omit [Sha256] in
theorem storeOf_isSome {key : String} :
    (storeOf log key).isSome ↔ ∃ t ∈ log, key ∈ t.writes.map Prod.fst := by
  induction log using List.reverseRecOn with
  | nil => simp [storeOf_nil, Store.empty]
  | append_singleton log t ih =>
      rw [storeOf_snoc, Writes.over_apply, Option.isSome_or, Bool.or_eq_true, ih]
      have last : (t.writes.find key).isSome = true ↔ key ∈ t.writes.map Prod.fst := by
        rw [← not_iff_not, ← Writes.find_eq_none, Option.not_isSome_iff_eq_none]
      rw [last]
      simp only [List.mem_append, List.mem_singleton, or_and_right, exists_or, exists_eq_left]
      exact or_comm

omit [Sha256] in
/-- What is stored was first written by one transaction. -/
theorem first_write {key : String} (stored : (storeOf log key).isSome) : ∃ before t after,
    log = before ++ t :: after ∧ (∀ u ∈ before, key ∉ u.writes.map Prod.fst) ∧
      key ∈ t.writes.map Prod.fst := by
  obtain ⟨u, mem, written⟩ := storeOf_isSome.mp stored
  clear stored
  induction log with
  | nil => cases mem
  | cons t log ih =>
      by_cases here : key ∈ t.writes.map Prod.fst
      · exact ⟨[], t, log, rfl, List.forall_mem_nil _, here⟩
      · rcases List.mem_cons.mp mem with rfl | later
        · exact absurd written here
        · obtain ⟨before, v, after, rfl, fresh, first⟩ := ih later
          exact ⟨t :: before, v, after, rfl, List.forall_mem_cons.mpr ⟨here, fresh⟩, first⟩

omit [Sha256] in
/-- The rows of a key start with the one of its first transaction. -/
theorem first_version {before after : Log} {t : Transaction} {key : String}
    (nodup : (t.writes.map Prod.fst).Nodup)
    (fresh : ∀ u ∈ before, key ∉ u.writes.map Prod.fst) (written : key ∈ t.writes.map Prod.fst) :
    ∃ text rest, ((versions (batchesOf (before ++ [t] ++ after))).filter
      fun r => decide (r.key = key)) = ⟨key, (before.length + 1 : Nat), text⟩ :: rest := by
  induction after using List.reverseRecOn with
  | nil =>
      have nothing : (versions (batchesOf before)).filter (fun r => decide (r.key = key)) = [] := by
        refine List.filter_eq_nil_iff.mpr fun r mem same => ?_
        obtain ⟨b, listed, inside⟩ := List.mem_flatMap.mp mem
        obtain ⟨u, here, spelled⟩ := List.mem_map.mp (List.fst_mem_of_mem_zipIdx listed)
        refine fresh u here ?_
        rw [← Writes.keys_spelled Value.text, spelled, ← of_decide_eq_true same]
        exact List.mem_map.mpr ⟨_, (mem_versionsOf.mp inside).2, rfl⟩
      obtain ⟨text, found⟩ : ∃ text, (t.writes.spelled Value.text).find key = some text := by
        rw [← Option.ne_none_iff_exists', Ne, Writes.find_eq_none, Writes.keys_spelled, not_not]
        exact written
      have once : ((t.writes.spelled Value.text).map Prod.fst).Nodup := by
        rwa [Writes.keys_spelled]
      have last := @filter_versionsOf _ _ _ (fun _ => true) key (t.writes.spelled Value.text)
        ((before.length + 1 : Nat) : Int) once
      simp only [Bool.and_true, if_true, found] at last
      refine ⟨text, [], ?_⟩
      rw [List.append_nil, batchesOf_snoc, versions_snoc, List.filter_append, nothing,
        length_batchesOf, last]
      rfl
  | append_singleton after u ih =>
      obtain ⟨text, rest, same⟩ := ih
      refine ⟨text, rest ++ (versionsOf ((batchesOf (before ++ [t] ++ after)).length + 1 : Nat)
        (u.writes.spelled Value.text)).filter (fun r => decide (r.key = key)), ?_⟩
      rw [← List.append_assoc, batchesOf_snoc, versions_snoc, List.filter_append, same,
        List.cons_append]

/-- **The creation of a state.**  The checkpoint that is found for a stored key is the one of the
first transaction that wrote it: the key is stored from there on, and not before. -/
theorem Sound.creation (sound : Sound log) (small : log.length < 2 ^ 53) {key : String}
    (stored : (storeOf log key).isSome) : ∃ before t after, log = before ++ t :: after ∧
      (ledgerOf channelId log).checkpointForStateCreation key =
        .ok (checkpointOf channelId before t) ∧
      ∀ n, (storeOf (log.take n) key).isSome ↔ before.length < n := by
  obtain ⟨before, t, after, rfl, fresh, written⟩ := first_write stored
  have each := sound.each t (List.mem_append_right _ List.mem_cons_self)
  refine ⟨before, t, after, rfl, ?_, fun n => ?_⟩
  · obtain ⟨text, rest, first⟩ := @first_version before after t key each.1 fresh written
    have sorted := (pairwise_versions (batchesOf (before ++ t :: after))).filter
      fun r => decide (r.key = key)
    have found := find_row channelId before t after
    rw [← List.append_cons] at first found
    rw [List.length_append, List.length_cons] at small
    rw [LocalLedger.checkpointForStateCreation]
    change (match (List.filterMap (fun r => (rowsOf channelId (before ++ t :: after)).find?
      fun row => decide (row.sequence = r.number))
      (List.insertionSort (fun a b => a.number ≤ b.number)
        ((versions (batchesOf (before ++ t :: after))).filter
          fun r => decide (r.key = key)))).head? with
      | none => _
      | some row => row.at) = _
    rw [sorted.insertionSort_eq, first, List.filterMap_cons, found]
    exact row_at (by omega) each.2.1
  · rw [storeOf_isSome]
    constructor
    · rintro ⟨u, mem, here⟩
      by_contra early
      rw [List.take_append_of_le_length (by omega)] at mem
      exact fresh u (List.mem_of_mem_take mem) here
    · intro late
      refine ⟨t, ?_, written⟩
      rw [List.take_append, List.mem_append]
      refine .inr ?_
      obtain ⟨m, rest⟩ : ∃ m, n - before.length = m + 1 := ⟨n - before.length - 1, by omega⟩
      rw [rest, List.take_succ_cons]
      exact List.mem_cons_self

/-- **Reads at checkpoints.**  Whatever was called, the checkpoints that the ledger accepts are
those it committed.  At each of them, and at the tip, one key, many keys and the keys with a prefix
are read as the log up to there left them; no read throws. -/
theorem ledger_reads (channelId : String) (calls : List LocalCall)
    (few : calls.length < 2 ^ 53) (at_ : Option Checkpoint) :
    ((LocalLedger.run calls (LocalLedger.create channelId)).2.assertAt at_ = .ok () ↔
      ∃ seen, Point channelId (runLog channelId calls []).2 at_ seen) ∧
    ∀ seen, Point channelId (runLog channelId calls []).2 at_ seen →
      (∀ key, (LocalLedger.run calls (LocalLedger.create channelId)).2.read key at_ =
        .ok (storeOf seen key)) ∧
      (∀ keys, ∃ found,
        (LocalLedger.run calls (LocalLedger.create channelId)).2.readMany keys at_ = .ok found ∧
          ∀ key, found.find key = if key ∈ keys then storeOf seen key else none) ∧
      ∀ start, ∃ es,
        (LocalLedger.run calls (LocalLedger.create channelId)).2.entries start at_ = .ok es ∧
          (es.map Prod.fst).Pairwise (· < ·) ∧ ∀ key value,
            (key, value) ∈ es ↔ start.toList <+: key.toList ∧ storeOf seen key = some value := by
  obtain ⟨same, kept, small⟩ := @Kept.create _ channelId calls few
  rw [same]
  refine ⟨kept.sound.accepts small, fun seen point => ?_⟩
  exact ⟨point.read kept.sound small, point.readMany kept.sound small,
    point.entries kept.sound small⟩

/-- A record under an immutable key keeps its value. -/
theorem Sound.immutable (sound : Sound log) {key : String} (is : isImmutable key = true) {n : Nat}
    {value : Value} (before : storeOf (log.take n) key = some value) :
    storeOf log key = some value := by
  induction sound with
  | nil =>
      rw [List.take_nil] at before
      exact before
  | @snoc log t sound honest checked ih =>
      by_cases early : n ≤ log.length
      · rw [List.take_append_of_le_length early] at before
        have stored := ih before
        rw [storeOf_snoc, Writes.over_apply]
        cases found : t.writes.find key with
        | none => rwa [Option.none_or]
        | some written =>
            have same := honest.immutable _ (Writes.mem_of_find found) is value stored
            rw [Option.some_or, same]
      · rwa [List.take_of_length_le (by rw [List.length_append, List.length_singleton]; omega)]
          at before

/-- **Records appear once.**  Whatever was called, a key is never read, or it is read at exactly
the accepted checkpoints from its creation on; under an immutable key the value is the same at all
of them. -/
theorem ledger_creation (channelId : String) (calls : List LocalCall)
    (few : calls.length < 2 ^ 53) (key : String) :
    (∀ at_, (LocalLedger.run calls (LocalLedger.create channelId)).2.assertAt at_ = .ok () →
      (LocalLedger.run calls (LocalLedger.create channelId)).2.read key at_ = .ok none) ∨
    ∃ created value,
      (LocalLedger.run calls (LocalLedger.create channelId)).2.checkpointForStateCreation key =
        .ok created ∧
      (LocalLedger.run calls (LocalLedger.create channelId)).2.assertCheckpoint created = .ok () ∧
      ∀ at_, (LocalLedger.run calls (LocalLedger.create channelId)).2.assertCheckpoint at_ =
          .ok () →
        if created.blockNumber ≤ at_.blockNumber then
          ∃ v, (LocalLedger.run calls (LocalLedger.create channelId)).2.read key (some at_) =
            .ok (some v) ∧ (isImmutable key = true → v = value)
        else (LocalLedger.run calls (LocalLedger.create channelId)).2.read key (some at_) =
          .ok none := by
  obtain ⟨same, kept, small⟩ := @Kept.create _ channelId calls few
  rw [same]
  have sound := kept.sound
  cases stored : storeOf (runLog channelId calls []).2 key with
  | none =>
      refine .inl fun at_ accepts => ?_
      obtain ⟨seen, point⟩ := (sound.accepts small).mp accepts
      rw [point.read sound small]
      refine congrArg _ (Option.not_isSome_iff_eq_none.mp fun is => ?_)
      obtain ⟨u, mem, written⟩ := storeOf_isSome.mp is
      rw [← point.take] at mem
      have present := storeOf_isSome.mpr ⟨u, List.mem_of_mem_take mem, written⟩
      rw [stored] at present
      cases present
  | some value =>
      obtain ⟨before, t, after, split, created, present⟩ :=
        @Sound.creation _ channelId _ sound small key (Option.isSome_iff_exists.mpr ⟨value, stored⟩)
      refine .inr ⟨checkpointOf channelId before t, value, created, ?_, fun at_ accepts => ?_⟩
      · have point : Point channelId (runLog channelId calls []).2
            (some (checkpointOf channelId before t)) (before ++ [t]) := by
          rw [split]
          exact .commit
        exact point.assertAt sound small
      · obtain ⟨seen, point⟩ := (@Sound.accepts _ channelId _ (some at_) sound small).mp accepts
        have number := point.number
        have shown := present seen.length
        rw [point.take] at shown
        have first : (checkpointOf channelId before t).blockNumber =
            ((before.length + 1 : Nat) : Int) := rfl
        rw [point.read sound small, number, first]
        by_cases late : before.length < seen.length
        · rw [if_pos (by omega)]
          obtain ⟨v, found⟩ := Option.isSome_iff_exists.mp (shown.mpr late)
          refine ⟨v, congrArg _ found, fun is => ?_⟩
          rw [← point.take] at found
          rw [sound.immutable is found] at stored
          exact Option.some.inj stored
        · rw [if_neg (by omega)]
          exact congrArg _ (Option.not_isSome_iff_eq_none.mp (mt shown.mp late))

end Points

end Knowledger.Storage

namespace Knowledger.Storage.Demo

open Knowledger.Demo

@[reducible] local instance readsSha256 : Sha256 := Knowledger.Demo.sha256

/-- The reads at the tip. -/
theorem ledger_reads_fence :
    ((LocalLedger.run fenceCalls (LocalLedger.create "team")).2.assertAt none = .ok () ↔
      ∃ seen, Point "team" (runLog "team" fenceCalls []).2 none seen) ∧
    ∀ seen, Point "team" (runLog "team" fenceCalls []).2 none seen →
      (∀ key, (LocalLedger.run fenceCalls (LocalLedger.create "team")).2.read key none =
        .ok (storeOf seen key)) ∧
      (∀ keys, ∃ found,
        (LocalLedger.run fenceCalls (LocalLedger.create "team")).2.readMany keys none = .ok found ∧
          ∀ key, found.find key = if key ∈ keys then storeOf seen key else none) ∧
      ∀ start, ∃ es,
        (LocalLedger.run fenceCalls (LocalLedger.create "team")).2.entries start none = .ok es ∧
          (es.map Prod.fst).Pairwise (· < ·) ∧ ∀ key value,
            (key, value) ∈ es ↔ start.toList <+: key.toList ∧ storeOf seen key = some value :=
  ledger_reads "team" fenceCalls fenceCalls_few none

/-- The configuration is never read, or from one checkpoint on and always the same. -/
theorem ledger_creation_config :
    (∀ at_, (LocalLedger.run fenceCalls (LocalLedger.create "team")).2.assertAt at_ = .ok () →
      (LocalLedger.run fenceCalls (LocalLedger.create "team")).2.read keyFor.config at_ =
        .ok none) ∨
    ∃ created value,
      (LocalLedger.run fenceCalls (LocalLedger.create "team")).2.checkpointForStateCreation
        keyFor.config = .ok created ∧
      (LocalLedger.run fenceCalls (LocalLedger.create "team")).2.assertCheckpoint created =
        .ok () ∧
      ∀ at_, (LocalLedger.run fenceCalls (LocalLedger.create "team")).2.assertCheckpoint at_ =
          .ok () →
        if created.blockNumber ≤ at_.blockNumber then
          ∃ v, (LocalLedger.run fenceCalls (LocalLedger.create "team")).2.read keyFor.config
            (some at_) = .ok (some v) ∧ (isImmutable keyFor.config = true → v = value)
        else (LocalLedger.run fenceCalls (LocalLedger.create "team")).2.read keyFor.config
          (some at_) = .ok none :=
  ledger_creation "team" fenceCalls fenceCalls_few keyFor.config

end Knowledger.Storage.Demo
