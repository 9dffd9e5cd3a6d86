import Knowledger.Lib.Lcs

/-!
# Line comparison

The line comparison of two bodies: the lines, the table of the longest common subsequences of
their ends, and the walk through it.  A read of a list or of the table outside of it is `none`.
`lineDiff_script` says that the output is a shortest script from one body to the other.
-/

namespace Knowledger.Web

/-! ## Lines -/

/-- A text as its code units. -/
abbrev Text := List UInt16

def carriageReturn : UInt16 := 0x0D

def lineFeed : UInt16 := 0x0A

/-- `value.replace(/\r\n?/gu, '\n')`. -/
def normalizeEndings : Text → Text
  | [] => []
  | [u] => if u = carriageReturn then [lineFeed] else [u]
  | u :: v :: rest =>
    if u = carriageReturn then
      if v = lineFeed then lineFeed :: normalizeEndings rest
      else lineFeed :: normalizeEndings (v :: rest)
    else u :: normalizeEndings (v :: rest)

/-- `value.split('\n')`. -/
def split : Text → List Text
  | [] => [[]]
  | u :: rest =>
    if u = lineFeed then [] :: split rest
    else
      match split rest with
      | line :: others => (u :: line) :: others
      | [] => [[u]]

/-- `lines.join('\n')`. -/
def join : List Text → Text
  | [] => []
  | [line] => line
  | line :: next :: rest => line ++ lineFeed :: join (next :: rest)

def lines (value : Text) : List Text := split (normalizeEndings value)

/-! ## The comparison -/

def maxLcsCells : Nat := 20000

abbrev Table := List (List Nat)

def Table.read (table : Table) (i j : Nat) : Option Nat := table[i]?.bind (·[j]?)

/-- The assignment of a cell of unsigned 32-bit numbers. -/
def Table.write (table : Table) (i j value : Nat) : Option Table := do
  let row ← table[i]?
  if j < row.length then return table.set i (row.set j (value % 4294967296)) else none

section

variable (before after : List Text)

def emptyTable : Table :=
  List.replicate (before.length + 1) (List.replicate (after.length + 1) 0)

/-- The right-hand side of the assignment in the two loops. -/
def cellValue (table : Table) (beforeIndex afterIndex : Nat) : Option Nat := do
  let beforeLine ← before[beforeIndex]?
  let afterLine ← after[afterIndex]?
  if beforeLine = afterLine then (table.read (beforeIndex + 1) (afterIndex + 1)).map (· + 1)
  else
    let skipBefore ← table.read (beforeIndex + 1) afterIndex
    let skipAfter ← table.read beforeIndex (afterIndex + 1)
    some (max skipBefore skipAfter)

def fillCell (table : Table) (beforeIndex afterIndex : Nat) : Option Table := do
  table.write beforeIndex afterIndex (← cellValue before after table beforeIndex afterIndex)

/-- The cells of a row below the index, from the last to the first. -/
def fillRow (table : Table) (beforeIndex : Nat) : Nat → Option Table
  | 0 => some table
  | afterIndex + 1 => do
    let filled ← fillCell before after table beforeIndex afterIndex
    fillRow filled beforeIndex afterIndex

/-- The rows below the index, from the last to the first. -/
def fill (table : Table) : Nat → Option Table
  | 0 => some table
  | beforeIndex + 1 => do
    let filled ← fillRow before after table beforeIndex after.length
    fill filled beforeIndex

inductive Entry
  | context (text : Text) (beforeLine afterLine : Nat)
  | removed (text : Text) (beforeLine : Nat)
  | added (text : Text) (afterLine : Nat)
  deriving DecidableEq

/-- The condition of the walk's second branch. -/
def dropsBefore (table : Table) (beforeIndex afterIndex : Nat) : Option Bool :=
  if after.length ≤ afterIndex then some true
  else if beforeIndex < before.length then do
    let skipBefore ← table.read (beforeIndex + 1) afterIndex
    let skipAfter ← table.read beforeIndex (afterIndex + 1)
    some (decide (skipAfter ≤ skipBefore))
  else some false

/-- The walk; the first argument bounds the number of its steps. -/
def walk (table : Table) : Nat → Nat → Nat → Option (List Entry)
  | 0, beforeIndex, afterIndex =>
    if beforeIndex < before.length ∨ afterIndex < after.length then none else some []
  | fuel + 1, beforeIndex, afterIndex =>
    if ¬ (beforeIndex < before.length ∨ afterIndex < after.length) then some []
    else if beforeIndex < before.length ∧ afterIndex < after.length ∧
        before[beforeIndex]? = after[afterIndex]? then do
      let text ← before[beforeIndex]?
      let rest ← walk table fuel (beforeIndex + 1) (afterIndex + 1)
      some (.context text (beforeIndex + 1) (afterIndex + 1) :: rest)
    else do
      if ← dropsBefore before after table beforeIndex afterIndex then
        let text ← before[beforeIndex]?
        let rest ← walk table fuel (beforeIndex + 1) afterIndex
        some (.removed text (beforeIndex + 1) :: rest)
      else
        let text ← after[afterIndex]?
        let rest ← walk table fuel beforeIndex (afterIndex + 1)
        some (.added text (afterIndex + 1) :: rest)

end

structure LineDiff where
  fallback : Bool
  message : Option String
  lines : List Entry
  beforeText : Option Text
  afterText : Option Text
  lineEndingsChanged : Bool
  beforeLineCount : Nat
  afterLineCount : Nat

def lineDiff (beforeText afterText : Text) : Option LineDiff := do
  let before := lines beforeText
  let after := lines afterText
  let lineEndingsChanged := decide (beforeText ≠ afterText) && decide (join before = join after)
  if maxLcsCells < before.length * after.length then
    return {
      fallback := true
      message := "본문이 커서 줄 단위 비교를 생략했습니다. 아래에 두 개정본의 원문을 나란히 표시합니다."
      lines := []
      beforeText := beforeText
      afterText := afterText
      lineEndingsChanged
      beforeLineCount := before.length
      afterLineCount := after.length }
  else
    let table ← fill before after (emptyTable before after) before.length
    let output ← walk before after table (before.length + after.length) 0 0
    return {
      fallback := false
      message := none
      lines := output
      beforeText := none
      afterText := none
      lineEndingsChanged
      beforeLineCount := before.length
      afterLineCount := after.length }

/-! ## Line endings -/

theorem split_ne_nil (text : Text) : split text ≠ [] := by
  rcases text with - | ⟨u, rest⟩
  · simp [split]
  · rw [split]
    split_ifs
    · simp
    · split <;> simp

theorem join_cons {line : Text} {rest : List Text} (more : rest ≠ []) :
    join (line :: rest) = line ++ lineFeed :: join rest := by
  rcases rest with - | ⟨next, rest⟩
  · exact absurd rfl more
  · rw [join]

theorem join_split (text : Text) : join (split text) = text := by
  induction text with
  | nil => rfl
  | cons u rest ih =>
      rw [split]
      split_ifs with feed
      · rw [join_cons (split_ne_nil rest), ih, feed, List.nil_append]
      · rcases shape : split rest with - | ⟨line, - | ⟨next, others⟩⟩
        · exact absurd shape (split_ne_nil rest)
        · rw [shape] at ih
          change line = rest at ih
          change u :: line = u :: rest
          rw [ih]
        · rw [shape, join] at ih
          change (u :: line) ++ lineFeed :: join (next :: others) = u :: rest
          rw [List.cons_append, ih]

/-- Texts whose lines join to one text have the same lines. -/
theorem lines_of_join {a b : Text} (same : join (lines a) = join (lines b)) :
    lines a = lines b := by
  rw [lines, lines, join_split, join_split] at same
  rw [lines, lines, same]

/-! ## The table -/

theorem Table.write_some {table : Table} {i j value : Nat} {row : List Nat}
    (found : table[i]? = some row) (inside : j < row.length) :
    ∃ written, table.write i j value = some written ∧ written.length = table.length ∧
      (∀ width, (∀ r ∈ table, r.length = width) → ∀ r ∈ written, r.length = width) ∧
      ∀ p q, written.read p q =
        if p = i ∧ q = j then some (value % 4294967296) else table.read p q := by
  refine ⟨table.set i (row.set j (value % 4294967296)), ?_, List.length_set, ?_, ?_⟩
  · rw [write, found]
    exact if_pos inside
  · intro width widths r mem
    rcases List.mem_or_eq_of_mem_set mem with old | rfl
    · exact widths r old
    · rw [List.length_set]
      exact widths row (List.mem_of_getElem? found)
  · intro p q
    have bound : i < table.length := (List.getElem?_eq_some_iff.mp found).1
    rw [read, read]
    by_cases rowHit : p = i
    · subst rowHit
      rw [List.getElem?_set_self bound, found]
      by_cases cellHit : q = j
      · subst cellHit
        rw [if_pos ⟨rfl, rfl⟩]
        exact List.getElem?_set_self inside
      · rw [if_neg (fun both => cellHit both.2)]
        exact List.getElem?_set_ne (Ne.symm cellHit)
    · rw [List.getElem?_set_ne (Ne.symm rowHit), if_neg (fun both => rowHit both.1)]

section

variable {before after : List Text} {table : Table}

/-- The cells behind the position, in the order of the fill, hold the length of a longest common
subsequence of the lines from there on. -/
structure Filled (before after : List Text) (table : Table) (beforeIndex afterIndex : Nat) :
    Prop where
  rows : table.length = before.length + 1
  widths : ∀ row ∈ table, row.length = after.length + 1
  cells : ∀ p q, p ≤ before.length → q ≤ after.length →
    beforeIndex < p ∨ beforeIndex = p ∧ afterIndex ≤ q ∨ q = after.length →
      table.read p q = some (Lcs.length (before.drop p) (after.drop q))

theorem filled_empty : Filled before after (emptyTable before after) before.length 0 where
  rows := List.length_replicate
  widths row mem := by rw [List.eq_of_mem_replicate mem, List.length_replicate]
  cells p q rowInside cellInside border := by
    have cell : Lcs.length (before.drop p) (after.drop q) = 0 := by
      rcases border with beyond | ⟨last, -⟩ | last
      · omega
      · rw [← last, List.drop_length, Lcs.length_nil_left]
      · rw [last, List.drop_length, Lcs.length_nil_right]
    rw [cell, Table.read, emptyTable, List.getElem?_replicate_of_lt (by omega)]
    exact List.getElem?_replicate_of_lt (by omega)

theorem fillCell_filled {b a : Nat} (small : before.length < 4294967296)
    (filled : Filled before after table b (a + 1)) (rowInside : b < before.length)
    (cellInside : a < after.length) :
    ∃ next, fillCell before after table b a = some next ∧ Filled before after next b a := by
  have beforeDrop : before.drop b = before[b] :: before.drop (b + 1) :=
    List.drop_eq_getElem_cons rowInside
  have afterDrop : after.drop a = after[a] :: after.drop (a + 1) :=
    List.drop_eq_getElem_cons cellInside
  have value : cellValue before after table b a =
      some (Lcs.length (before.drop b) (after.drop a)) := by
    rw [cellValue, List.getElem?_eq_getElem rowInside, List.getElem?_eq_getElem cellInside]
    dsimp only [Option.bind_eq_bind, Option.bind_some]
    rw [beforeDrop, afterDrop]
    split_ifs with same
    · rw [filled.cells (b + 1) (a + 1) (by omega) (by omega) (by omega), ← same,
        Lcs.length_cons_self]
      rfl
    · rw [filled.cells (b + 1) a (by omega) (by omega) (by omega),
        filled.cells b (a + 1) (by omega) (by omega) (by omega), Lcs.length_cons_ne same,
        beforeDrop, afterDrop]
      rfl
  have rowFound : b < table.length := by
    rw [filled.rows]
    omega
  have width : table[b].length = after.length + 1 := filled.widths _ (List.getElem_mem rowFound)
  obtain ⟨next, written, rows, widths, reads⟩ := @Table.write_some _ b a
    (Lcs.length (before.drop b) (after.drop a)) _ (List.getElem?_eq_getElem rowFound) (by omega)
  refine ⟨next, ?_, rows.trans filled.rows, widths _ filled.widths, ?_⟩
  · rw [fillCell, value]
    exact written
  · intro p q inRow inCell behind
    rw [reads]
    by_cases hit : p = b ∧ q = a
    · obtain ⟨rfl, rfl⟩ := hit
      have fits : Lcs.length (before.drop p) (after.drop q) < 4294967296 := by
        have few := Lcs.length_le_left (before.drop p) (after.drop q)
        rw [List.length_drop] at few
        omega
      rw [if_pos ⟨rfl, rfl⟩, Nat.mod_eq_of_lt fits]
    · rw [if_neg hit]
      exact filled.cells p q inRow inCell (by omega)

theorem fillRow_filled {b a : Nat} (small : before.length < 4294967296)
    (filled : Filled before after table b a) (rowInside : b < before.length)
    (cellInside : a ≤ after.length) :
    ∃ next, fillRow before after table b a = some next ∧ Filled before after next b 0 := by
  induction a generalizing table with
  | zero => exact ⟨table, rfl, filled⟩
  | succ a ih =>
      obtain ⟨middle, cell, reached⟩ := fillCell_filled small filled rowInside cellInside
      obtain ⟨next, rest, done⟩ := ih reached (by omega)
      refine ⟨next, ?_, done⟩
      rw [fillRow, cell]
      exact rest

theorem fill_filled {b : Nat} (small : before.length < 4294967296)
    (filled : Filled before after table b 0) (rowInside : b ≤ before.length) :
    ∃ next, fill before after table b = some next ∧ Filled before after next 0 0 := by
  induction b generalizing table with
  | zero => exact ⟨table, rfl, filled⟩
  | succ b ih =>
      have start : Filled before after table b after.length :=
        { filled with cells := fun p q inRow inCell behind =>
            filled.cells p q inRow inCell (by omega) }
      obtain ⟨middle, row, reached⟩ := fillRow_filled small start rowInside le_rfl
      obtain ⟨next, rest, done⟩ := ih reached (by omega)
      refine ⟨next, ?_, done⟩
      rw [fill, row]
      exact rest

end

/-! ## The walk -/

def Entry.beforeSide : Entry → Option (Text × Nat)
  | .context text beforeLine _ => some (text, beforeLine)
  | .removed text beforeLine => some (text, beforeLine)
  | .added _ _ => none

def Entry.afterSide : Entry → Option (Text × Nat)
  | .context text _ afterLine => some (text, afterLine)
  | .removed _ _ => none
  | .added text afterLine => some (text, afterLine)

def Entry.isContext : Entry → Bool
  | .context _ _ _ => true
  | .removed _ _ => false
  | .added _ _ => false

/-- The entries turn the first lines, numbered from the first number on, into the others, and
keep as many as a longest common subsequence has. -/
structure Script (before after : List Text) (beforeLine afterLine : Nat) (entries : List Entry) :
    Prop where
  beforeSide : entries.filterMap Entry.beforeSide = before.zipIdx beforeLine
  afterSide : entries.filterMap Entry.afterSide = after.zipIdx afterLine
  contexts : entries.countP Entry.isContext = Lcs.length before after

theorem Script.empty (beforeLine afterLine : Nat) : Script [] [] beforeLine afterLine [] where
  beforeSide := rfl
  afterSide := rfl
  contexts := by simp

section

variable {before after : List Text} {beforeLine afterLine : Nat} {entries : List Entry}

theorem Script.keep (text : Text)
    (rest : Script before after (beforeLine + 1) (afterLine + 1) entries) :
    Script (text :: before) (text :: after) beforeLine afterLine
      (.context text beforeLine afterLine :: entries) where
  beforeSide := congrArg ((text, beforeLine) :: ·) rest.beforeSide
  afterSide := congrArg ((text, afterLine) :: ·) rest.afterSide
  contexts := by rw [List.countP_cons_of_pos rfl, rest.contexts, Lcs.length_cons_self]

theorem Script.remove (text : Text) (rest : Script before after (beforeLine + 1) afterLine entries)
    (longest : Lcs.length (text :: before) after = Lcs.length before after) :
    Script (text :: before) after beforeLine afterLine (.removed text beforeLine :: entries) where
  beforeSide := congrArg ((text, beforeLine) :: ·) rest.beforeSide
  afterSide := rest.afterSide
  contexts := by rw [List.countP_cons_of_neg (by simp [Entry.isContext]), rest.contexts, longest]

theorem Script.add (text : Text) (rest : Script before after beforeLine (afterLine + 1) entries)
    (longest : Lcs.length before (text :: after) = Lcs.length before after) :
    Script before (text :: after) beforeLine afterLine (.added text afterLine :: entries) where
  beforeSide := rest.beforeSide
  afterSide := congrArg ((text, afterLine) :: ·) rest.afterSide
  contexts := by rw [List.countP_cons_of_neg (by simp [Entry.isContext]), rest.contexts, longest]

end

section

variable {before after : List Text} {table : Table}

/-- The walk drops a line only where a longest common subsequence does without it. -/
theorem dropsBefore_longest {b a : Nat} (filled : Filled before after table 0 0)
    (rowInside : b ≤ before.length) (cellInside : a ≤ after.length)
    (more : b < before.length ∨ a < after.length)
    (differ : ¬ (b < before.length ∧ a < after.length ∧ before[b]? = after[a]?)) :
    (dropsBefore before after table b a = some true ∧ b < before.length ∧
      Lcs.length (before.drop b) (after.drop a) =
        Lcs.length (before.drop (b + 1)) (after.drop a)) ∨
    (dropsBefore before after table b a = some false ∧ a < after.length ∧
      Lcs.length (before.drop b) (after.drop a) =
        Lcs.length (before.drop b) (after.drop (a + 1))) := by
  rw [dropsBefore]
  by_cases exhausted : after.length ≤ a
  · refine Or.inl ⟨if_pos exhausted, by omega, ?_⟩
    rw [List.drop_eq_nil_of_le exhausted, Lcs.length_nil_right, Lcs.length_nil_right]
  · rw [if_neg exhausted]
    by_cases left : b < before.length
    · rw [if_pos left, filled.cells (b + 1) a (by omega) (by omega) (by omega),
        filled.cells b (a + 1) (by omega) (by omega) (by omega)]
      have right : a < after.length := by omega
      have beforeDrop : before.drop b = before[b] :: before.drop (b + 1) :=
        List.drop_eq_getElem_cons left
      have afterDrop : after.drop a = after[a] :: after.drop (a + 1) :=
        List.drop_eq_getElem_cons right
      have heads : before[b] ≠ after[a] := by
        intro same
        apply differ
        rw [List.getElem?_eq_getElem left, List.getElem?_eq_getElem right, same]
        exact ⟨left, right, rfl⟩
      have longest := Lcs.length_cons_ne heads (before.drop (b + 1)) (after.drop (a + 1))
      rw [← beforeDrop, ← afterDrop] at longest
      rw [longest]
      rcases Nat.lt_or_ge (Lcs.length (before.drop (b + 1)) (after.drop a))
        (Lcs.length (before.drop b) (after.drop (a + 1))) with less | enough
      · refine Or.inr ⟨?_, right, max_eq_right less.le⟩
        exact congrArg some (decide_eq_false (by omega))
      · refine Or.inl ⟨?_, left, max_eq_left enough⟩
        exact congrArg some (decide_eq_true enough)
    · refine Or.inr ⟨if_neg left, by omega, ?_⟩
      rw [List.drop_eq_nil_of_le (by omega), Lcs.length_nil_left, Lcs.length_nil_left]

theorem walk_script {fuel b a : Nat} (filled : Filled before after table 0 0)
    (rowInside : b ≤ before.length) (cellInside : a ≤ after.length)
    (enough : before.length - b + (after.length - a) ≤ fuel) :
    ∃ entries, walk before after table fuel b a = some entries ∧
      Script (before.drop b) (after.drop a) (b + 1) (a + 1) entries := by
  induction fuel generalizing b a with
  | zero =>
      have done : ¬ (b < before.length ∨ a < after.length) := by omega
      refine ⟨[], if_neg done, ?_⟩
      rw [List.drop_eq_nil_of_le (by omega), List.drop_eq_nil_of_le (by omega)]
      exact Script.empty _ _
  | succ fuel ih =>
      rw [walk]
      by_cases more : b < before.length ∨ a < after.length
      · rw [if_neg (not_not.mpr more)]
        by_cases same : b < before.length ∧ a < after.length ∧ before[b]? = after[a]?
        · obtain ⟨left, right, equal⟩ := same
          obtain ⟨rest, run, script⟩ := ih (b := b + 1) (a := a + 1) left right (by omega)
          rw [if_pos ⟨left, right, equal⟩, List.getElem?_eq_getElem left, run]
          refine ⟨_, rfl, ?_⟩
          rw [List.getElem?_eq_getElem left, List.getElem?_eq_getElem right] at equal
          rw [List.drop_eq_getElem_cons left, List.drop_eq_getElem_cons right,
            ← Option.some.inj equal]
          exact script.keep _
        · rw [if_neg same]
          rcases dropsBefore_longest filled rowInside cellInside more same with
            ⟨decided, left, longest⟩ | ⟨decided, right, longest⟩
          · obtain ⟨rest, run, script⟩ := ih (b := b + 1) (a := a) left cellInside (by omega)
            rw [decided, List.getElem?_eq_getElem left, run]
            refine ⟨_, rfl, ?_⟩
            rw [List.drop_eq_getElem_cons left] at longest ⊢
            exact script.remove _ longest
          · obtain ⟨rest, run, script⟩ := ih (b := b) (a := a + 1) rowInside right (by omega)
            rw [decided, List.getElem?_eq_getElem right, run]
            refine ⟨_, rfl, ?_⟩
            rw [List.drop_eq_getElem_cons right] at longest ⊢
            exact script.add _ longest
      · rw [if_pos more]
        refine ⟨[], rfl, ?_⟩
        rw [List.drop_eq_nil_of_le (by omega), List.drop_eq_nil_of_le (by omega)]
        exact Script.empty _ _

end

/-! ## Result -/

theorem lines_length_pos (text : Text) : 0 < (lines text).length :=
  List.length_pos_iff.mpr (split_ne_nil _)

theorem lineEndingsChanged_iff {a b : Text} :
    (decide (a ≠ b) && decide (join (lines a) = join (lines b))) = true ↔
      a ≠ b ∧ lines a = lines b := by
  rw [Bool.and_eq_true, decide_eq_true_eq, decide_eq_true_eq]
  constructor
  · rintro ⟨differ, joined⟩
    exact ⟨differ, lines_of_join joined⟩
  · rintro ⟨differ, same⟩
    exact ⟨differ, congrArg join same⟩

/-- The bodies whose table is small enough have a script. -/
theorem lineDiff_run {beforeText afterText : Text}
    (small : (lines beforeText).length * (lines afterText).length ≤ maxLcsCells) :
    ∃ d, lineDiff beforeText afterText = some d ∧ d.fallback = false ∧
      Script (lines beforeText) (lines afterText) 1 1 d.lines ∧
      (d.lineEndingsChanged = true ↔
        beforeText ≠ afterText ∧ lines beforeText = lines afterText) := by
  have fits : (lines beforeText).length < 4294967296 := by
    have positive := lines_length_pos afterText
    have bound : (lines beforeText).length ≤ maxLcsCells := by
      calc
        (lines beforeText).length ≤ (lines beforeText).length * (lines afterText).length :=
          Nat.le_mul_of_pos_right _ positive
        _ ≤ maxLcsCells := small
    exact Nat.lt_of_le_of_lt bound (by decide)
  obtain ⟨table, filling, filled⟩ := fill_filled fits filled_empty le_rfl
  obtain ⟨entries, run, script⟩ := walk_script (b := 0) (a := 0) filled (Nat.zero_le _)
    (Nat.zero_le _) (Nat.le_refl ((lines beforeText).length + (lines afterText).length))
  rw [lineDiff, if_neg (Nat.not_lt.mpr small), filling, Option.bind_eq_bind, Option.bind_some, run]
  exact ⟨_, rfl, rfl, script, lineEndingsChanged_iff⟩

/-- A line comparison always returns. -/
theorem lineDiff_isSome (beforeText afterText : Text) : ∃ d, lineDiff beforeText afterText = some d := by
  by_cases large : maxLcsCells < (lines beforeText).length * (lines afterText).length
  · rw [lineDiff, if_pos large]
    exact ⟨_, rfl⟩
  · obtain ⟨d, run, -⟩ := lineDiff_run (Nat.not_lt.mp large)
    exact ⟨d, run⟩

/-- The bodies whose table is small enough have a comparison: all lines of both in order and
numbered, as many in common as can be, and the flag for a change of line endings only. -/
theorem lineDiff_script (beforeText afterText : Text)
    (small : (lines beforeText).length * (lines afterText).length ≤ maxLcsCells) :
    ∃ d, lineDiff beforeText afterText = some d ∧ d.fallback = false ∧
      d.lines.filterMap Entry.beforeSide = (lines beforeText).zipIdx 1 ∧
      d.lines.filterMap Entry.afterSide = (lines afterText).zipIdx 1 ∧
      IsGreatest {n | ∃ s : List Text, s.Sublist (lines beforeText) ∧
        s.Sublist (lines afterText) ∧ s.length = n} (d.lines.countP Entry.isContext) ∧
      (d.lineEndingsChanged = true ↔
        beforeText ≠ afterText ∧ lines beforeText = lines afterText) := by
  obtain ⟨d, run, whole, script, endings⟩ := lineDiff_run small
  refine ⟨d, run, whole, script.beforeSide, script.afterSide, ?_, endings⟩
  rw [script.contexts]
  exact Lcs.length_isGreatest _ _

/-! ## Two bodies -/

namespace Demo

/-- Two lines ended by a carriage return and a line feed. -/
def draft : Text := [0x41, 0x0D, 0x0A, 0x42]

def edited : Text := [0x41, 0x0A, 0x43]

theorem lineDiff_script_draft : ∃ d, lineDiff draft edited = some d ∧
    d.lines.filterMap Entry.beforeSide = [([0x41], 1), ([0x42], 2)] ∧
    d.lines.filterMap Entry.afterSide = [([0x41], 1), ([0x43], 2)] := by
  obtain ⟨d, run, -, before, after, -⟩ := lineDiff_script draft edited (by decide)
  exact ⟨d, run, before.trans (by decide), after.trans (by decide)⟩

end Demo

end Knowledger.Web
