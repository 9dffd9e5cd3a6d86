import Mathlib

/-!
# JSON values of an ECMAScript program

A JavaScript string is a sequence of UTF-16 code units and need not be well-formed
Unicode: `Str` keeps the strings with an unpaired surrogate apart from the others, which
are Lean strings.  A number is an integer, a fraction named by the text it prints as, or
not finite.  An object lists its properties in the order they were inserted.

`Value.normalize` sorts every object by the code units of its property names, the order
of canonical JSON, and `Value.text` prints a value as `JSON.stringify` does.
`Value.text_inj`: printing is injective on the values that canonical JSON accepts.
-/

namespace Js

/-! ## Strings -/

/-- Every surrogate of the sequence is paired. -/
def validUnicode : List UInt16 → Bool
  | [] => true
  | c :: rest =>
      if 0xd800 ≤ c ∧ c ≤ 0xdbff then
        match rest with
        | [] => false
        | next :: rest => if next < 0xdc00 ∨ next > 0xdfff then false else validUnicode rest
      else if 0xdc00 ≤ c ∧ c ≤ 0xdfff then false
      else validUnicode rest

/-- The code units of one scalar value. -/
def charUnits (c : Char) : List UInt16 :=
  if c.toNat < 0x10000 then [UInt16.ofNat c.toNat]
  else [UInt16.ofNat (0xd800 + (c.toNat - 0x10000) / 0x400),
    UInt16.ofNat (0xdc00 + (c.toNat - 0x10000) % 0x400)]

/-- A JavaScript string. -/
inductive Str
  | wellFormed (s : String)
  | illFormed (units : List UInt16) (unpaired : validUnicode units = false)
  deriving DecidableEq

instance : Coe String Str := ⟨.wellFormed⟩

def Str.units : Str → List UInt16
  | .wellFormed s => s.toList.flatMap charUnits
  | .illFormed units _ => units

theorem charUnits_single {c : Char} (small : c.toNat < 0x10000) :
    ∃ u : UInt16, charUnits c = [u] ∧ ¬ (0xd800 ≤ u ∧ u ≤ 0xdbff) ∧
      ¬ (0xdc00 ≤ u ∧ u ≤ 0xdfff) := by
  refine ⟨UInt16.ofNat c.toNat, by simp [charUnits, small], ?_⟩
  have valid : c.toNat < 0xd800 ∨ 0xdfff < c.toNat ∧ c.toNat < 0x110000 := c.valid
  have value : (UInt16.ofNat c.toNat).toNat = c.toNat := by
    rw [UInt16.toNat_ofNat', Nat.mod_eq_of_lt small]
  simp only [UInt16.le_iff_toNat_le, value, UInt16.reduceToNat]
  omega

theorem charUnits_pair {c : Char} (large : ¬ c.toNat < 0x10000) :
    ∃ h l : UInt16, charUnits c = [h, l] ∧ (0xd800 ≤ h ∧ h ≤ 0xdbff) ∧
      ¬ (l < 0xdc00 ∨ l > 0xdfff) := by
  refine ⟨_, _, by rw [charUnits, if_neg large], ?_⟩
  have valid : c.toNat < 0xd800 ∨ 0xdfff < c.toNat ∧ c.toNat < 0x110000 := c.valid
  simp only [UInt16.le_iff_toNat_le, UInt16.lt_iff_toNat_lt, UInt16.toNat_ofNat', gt_iff_lt,
    UInt16.reduceToNat]
  omega

/-- The code units of a Lean string have no unpaired surrogate. -/
theorem validUnicode_units (s : String) : validUnicode (Str.wellFormed s).units = true := by
  change validUnicode (s.toList.flatMap charUnits) = true
  induction s.toList with
  | nil => rfl
  | cons c cs ih =>
      by_cases small : c.toNat < 0x10000
      · obtain ⟨u, units, notHigh, notLow⟩ := charUnits_single small
        rw [List.flatMap_cons, units, List.singleton_append, validUnicode.eq_def]
        simp only [if_neg notHigh, if_neg notLow]
        exact ih
      · obtain ⟨h, l, units, high, low⟩ := charUnits_pair small
        rw [List.flatMap_cons, units, List.cons_append, List.singleton_append,
          validUnicode.eq_def]
        simp only [if_pos high, if_neg low]
        exact ih

/-- Lexicographic order of code units. -/
def leUnits : List UInt16 → List UInt16 → Bool
  | [], _ => true
  | _ :: _, [] => false
  | a :: as, b :: bs => a < b || (a == b && leUnits as bs)

theorem leUnits_refl (a : List UInt16) : leUnits a a = true := by
  induction a with
  | nil => rfl
  | cons u a ih => simp [leUnits, ih]

/-! ## Values -/

/-- The characters of a printed number. -/
def numberChar (c : Char) : Bool :=
  c.isDigit || c == '-' || c == '+' || c == '.' || c == 'e'

/-- The text of a finite number that is not an integer. -/
def fractionText (t : List Char) : Bool :=
  t.all numberChar && t.any (fun c => c == '.' || c == 'e') &&
    (match t with
     | c :: _ => c.isDigit || c == '-'
     | [] => false)

/-- A JavaScript number. `-0` prints and compares as `0` and is not kept apart. A fraction
is named by the shortest decimal that reads back as it, which is how it prints. -/
inductive Number
  | int (n : Int)
  | fraction (text : String) (isFraction : fractionText text.toList = true)
  | infinite (negative : Bool)
  | nan
  deriving DecidableEq

inductive Value
  | null
  | bool (b : Bool)
  | num (n : Number)
  | str (s : Str)
  | arr (items : List Value)
  | obj (fields : List (Str × Value))

/-- The own properties of an object. -/
abbrev Fields := List (Str × Value)

/-- Induction over a value: the claim of an array from that of its items, of an object
from that of its properties. -/
theorem Value.ind {P : Value → Prop} (null : P .null) (bool : ∀ b, P (.bool b))
    (num : ∀ n, P (.num n)) (str : ∀ s, P (.str s))
    (arr : ∀ items : List Value, (∀ v ∈ items, P v) → P (.arr items))
    (obj : ∀ fields : Fields, (∀ f ∈ fields, P f.2) → P (.obj fields)) (v : Value) : P v :=
  v.rec null bool num str arr obj (fun _ mem => nomatch mem)
    (fun _ _ head tail => List.forall_mem_cons.mpr ⟨head, tail⟩) (fun _ mem => nomatch mem)
    (fun _ _ head tail => List.forall_mem_cons.mpr ⟨head, tail⟩) fun _ _ second => second

/-- A property by name; `none` is `undefined`. -/
def Fields.get (fs : Fields) (name : String) : Option Value :=
  (fs.find? fun f => f.1 = .wellFormed name).map Prod.snd

/-- `Object.keys`. -/
def Fields.keys (fs : Fields) : List Str := fs.map Prod.fst

def fieldLe (a b : Str × Value) : Prop := leUnits a.1.units b.1.units = true

instance : DecidableRel fieldLe := fun a b =>
  inferInstanceAs (Decidable (leUnits a.1.units b.1.units = true))

mutual
/-- The value with the properties of every object in canonical order. -/
def Value.normalize : Value → Value
  | .null => .null
  | .bool b => .bool b
  | .num n => .num n
  | .str s => .str s
  | .arr items => .arr (normalizeItems items)
  | .obj fields => .obj ((normalizeFields fields).insertionSort fieldLe)

def normalizeItems : List Value → List Value
  | [] => []
  | v :: rest => v.normalize :: normalizeItems rest

def normalizeFields : Fields → Fields
  | [] => []
  | (k, v) :: rest => (k, v.normalize) :: normalizeFields rest
end

theorem normalizeItems_eq (items : List Value) :
    normalizeItems items = items.map Value.normalize := by
  induction items with
  | nil => rfl
  | cons v rest ih => rw [normalizeItems, ih, List.map_cons]

theorem normalizeFields_eq (fields : Fields) :
    normalizeFields fields = fields.map fun f => (f.1, f.2.normalize) := by
  induction fields with
  | nil => rfl
  | cons f rest ih =>
      obtain ⟨k, v⟩ := f
      rw [normalizeFields, ih, List.map_cons]

/-- Properties in canonical order. -/
def Fields.normalize (fs : Fields) : Fields := (normalizeFields fs).insertionSort fieldLe

@[simp] theorem Value.normalize_obj (fs : Fields) :
    (Value.obj fs).normalize = .obj fs.normalize := by
  rw [Value.normalize]; rfl

@[simp] theorem Value.normalize_arr (items : List Value) :
    (Value.arr items).normalize = .arr (items.map Value.normalize) := by
  rw [Value.normalize, normalizeItems_eq]

@[simp] theorem Value.normalize_str (s : Str) : (Value.str s).normalize = .str s := by
  rw [Value.normalize]

@[simp] theorem Value.normalize_num (n : Number) : (Value.num n).normalize = .num n := by
  rw [Value.normalize]

@[simp] theorem Value.normalize_bool (b : Bool) : (Value.bool b).normalize = .bool b := by
  rw [Value.normalize]

@[simp] theorem Value.normalize_null : Value.null.normalize = .null := by
  rw [Value.normalize]

theorem Fields.mem_keys_normalize {fs : Fields} {k : Str} :
    k ∈ fs.normalize.keys ↔ k ∈ fs.keys := by
  unfold Fields.normalize Fields.keys
  rw [((List.perm_insertionSort fieldLe _).map Prod.fst).mem_iff, normalizeFields_eq,
    List.map_map]
  rfl

theorem Fields.length_normalize (fs : Fields) : fs.normalize.length = fs.length := by
  unfold Fields.normalize
  rw [List.length_insertionSort, normalizeFields_eq, List.length_map]

@[simp] theorem Fields.get_nil (name : String) : Fields.get [] name = none := rfl

theorem Fields.get_cons (k : Str) (v : Value) (fs : Fields) (name : String) :
    Fields.get ((k, v) :: fs) name = if k = .wellFormed name then some v else fs.get name := by
  by_cases hit : k = .wellFormed name <;> simp [Fields.get, hit]

theorem Fields.get_orderedInsert (f : Str × Value) (fs : Fields) (name : String) :
    Fields.get (fs.orderedInsert fieldLe f) name = Fields.get (f :: fs) name := by
  obtain ⟨k, v⟩ := f
  induction fs with
  | nil => rfl
  | cons g rest ih =>
      obtain ⟨k', v'⟩ := g
      by_cases le : fieldLe (k, v) (k', v')
      · rw [List.orderedInsert_cons_of_le _ _ le]
      · have differs : k ≠ k' := by
          rintro rfl
          exact le (leUnits_refl _)
        rw [List.orderedInsert_cons, if_neg le]
        rw [Fields.get_cons, ih, Fields.get_cons, Fields.get_cons, Fields.get_cons]
        by_cases hit : k = .wellFormed name
        · subst hit
          simp [differs.symm]
        · simp [hit]

/-- Sorting the properties of an object changes none of them. -/
theorem Fields.get_normalize (fs : Fields) (name : String) :
    fs.normalize.get name = (fs.get name).map Value.normalize := by
  unfold Fields.normalize
  rw [normalizeFields_eq]
  induction fs with
  | nil => rfl
  | cons f rest ih =>
      obtain ⟨k, v⟩ := f
      rw [List.map_cons, List.insertionSort_cons, Fields.get_orderedInsert, Fields.get_cons, ih,
        Fields.get_cons]
      by_cases hit : k = .wellFormed name <;> simp [hit]

/-! ### Sorting twice -/

theorem leUnits_total (a b : List UInt16) : leUnits a b = true ∨ leUnits b a = true := by
  induction a generalizing b with
  | nil => exact Or.inl rfl
  | cons u a ih =>
      cases b with
      | nil => exact Or.inr rfl
      | cons w b =>
          simp only [leUnits, Bool.or_eq_true, decide_eq_true_eq, Bool.and_eq_true, beq_iff_eq]
          rcases Nat.lt_trichotomy u.toNat w.toNat with below | same | above
          · exact Or.inl (Or.inl below)
          · rcases ih b with le | ge
            · exact Or.inl (Or.inr ⟨UInt16.toNat_inj.mp same, le⟩)
            · exact Or.inr (Or.inr ⟨UInt16.toNat_inj.mp same.symm, ge⟩)
          · exact Or.inr (Or.inl above)

theorem leUnits_trans {a b c : List UInt16} (hab : leUnits a b = true)
    (hbc : leUnits b c = true) : leUnits a c = true := by
  induction a generalizing b c with
  | nil => rfl
  | cons u a ih =>
      cases b with
      | nil => cases hab
      | cons w b =>
          cases c with
          | nil => cases hbc
          | cons x c =>
              simp only [leUnits, Bool.or_eq_true, decide_eq_true_eq, Bool.and_eq_true,
                beq_iff_eq] at hab hbc ⊢
              rcases hab with below | ⟨rfl, le⟩
              · rcases hbc with next | ⟨rfl, _⟩
                · exact Or.inl (UInt16.lt_trans below next)
                · exact Or.inl below
              · rcases hbc with next | ⟨rfl, le'⟩
                · exact Or.inl next
                · exact Or.inr ⟨rfl, ih le le'⟩

instance : Std.Total fieldLe := ⟨fun a b => leUnits_total a.1.units b.1.units⟩

instance : IsTrans (Str × Value) fieldLe := ⟨fun _ _ _ => leUnits_trans⟩

theorem Fields.normalize_pairwise (fs : Fields) : fs.normalize.Pairwise fieldLe :=
  List.pairwise_insertionSort fieldLe _

/-- Sorting twice is sorting once. -/
@[simp] theorem Value.normalize_normalize (v : Value) : v.normalize.normalize = v.normalize := by
  induction v using Value.ind with
  | null => simp
  | bool b => simp
  | num n => simp
  | str s => simp
  | arr items each =>
      rw [Value.normalize_arr, Value.normalize_arr, List.map_map]
      exact congrArg Value.arr (List.map_congr_left each)
  | obj fields each =>
      have sorted : ∀ f ∈ fields.normalize, (f.1, f.2.normalize) = f := by
        intro f mem
        rw [Fields.normalize, List.mem_insertionSort, normalizeFields_eq] at mem
        obtain ⟨g, inside, rfl⟩ := List.mem_map.mp mem
        exact congrArg (Prod.mk g.1) (each g inside)
      rw [Value.normalize_obj, Value.normalize_obj, Fields.normalize, normalizeFields_eq,
        List.map_congr_left sorted, List.map_id' _]
      exact congrArg Value.obj fields.normalize_pairwise.insertionSort_eq

theorem Fields.get_isSome {fs : Fields} {name : String} :
    (fs.get name).isSome ↔ Str.wellFormed name ∈ fs.keys := by
  induction fs with
  | nil => simp [Fields.keys]
  | cons f rest ih =>
      obtain ⟨k, v⟩ := f
      rw [Fields.get_cons]
      by_cases hit : k = .wellFormed name
      · simp [hit, Fields.keys]
      · simp only [hit, if_false, ih]
        simp [Fields.keys, Ne.symm hit]

/-! ## Text -/

def hexDigit (n : Nat) : Char := Nat.digitChar n

/-- One character inside a JSON string. -/
def escape (c : Char) : List Char :=
  if c = '"' then ['\\', '"']
  else if c = '\\' then ['\\', '\\']
  else if c = '\x08' then ['\\', 'b']
  else if c = '\x0c' then ['\\', 'f']
  else if c = '\n' then ['\\', 'n']
  else if c = '\r' then ['\\', 'r']
  else if c = '\t' then ['\\', 't']
  else if c.toNat < 0x20 then ['\\', 'u', '0', '0', hexDigit (c.toNat / 16), hexDigit (c.toNat % 16)]
  else [c]

/-- A string of well-formed Unicode as JSON prints it. -/
def quote (s : String) : List Char := '"' :: (s.toList.flatMap escape ++ ['"'])

/-- A code unit of an ill-formed string, always escaped. -/
def escapeUnit (u : UInt16) : List Char :=
  ['\\', 'u', hexDigit (u.toNat / 4096), hexDigit (u.toNat / 256 % 16),
    hexDigit (u.toNat / 16 % 16), hexDigit (u.toNat % 16)]

def Str.text : Str → List Char
  | .wellFormed s => quote s
  | .illFormed units _ => '"' :: (units.flatMap escapeUnit ++ ['"'])

def Number.text : Number → List Char
  | .int n => (Int.repr n).toList
  | .fraction t _ => t.toList
  | .infinite _ => "null".toList
  | .nan => "null".toList

mutual
/-- `JSON.stringify`. -/
def Value.text : Value → List Char
  | .null => "null".toList
  | .bool true => "true".toList
  | .bool false => "false".toList
  | .num n => n.text
  | .str s => s.text
  | .arr items => '[' :: (itemsText items ++ [']'])
  | .obj fields => '{' :: (fieldsText fields ++ ['}'])

def itemsText : List Value → List Char
  | [] => []
  | [v] => v.text
  | v :: w :: rest => v.text ++ ',' :: itemsText (w :: rest)

def fieldsText : Fields → List Char
  | [] => []
  | [(k, v)] => k.text ++ ':' :: v.text
  | (k, v) :: f :: rest => k.text ++ ':' :: (v.text ++ ',' :: fieldsText (f :: rest))
end

/-- JSON has a text for the finite numbers. -/
def Number.printable : Number → Bool
  | .int _ => true
  | .fraction _ _ => true
  | .infinite _ => false
  | .nan => false

mutual
/-- No ill-formed string and no number JSON cannot print. -/
def Value.printable : Value → Bool
  | .null => true
  | .bool _ => true
  | .num n => n.printable
  | .str (.wellFormed _) => true
  | .str (.illFormed _ _) => false
  | .arr items => printableItems items
  | .obj fields => printableFields fields

def printableItems : List Value → Bool
  | [] => true
  | v :: rest => v.printable && printableItems rest

def printableFields : Fields → Bool
  | [] => true
  | (.wellFormed _, v) :: rest => v.printable && printableFields rest
  | (.illFormed _ _, _) :: _ => false
end

/-! ## Printing is injective -/

/-- Reads one escaped character back. -/
def unescape : List Char → Option (Char × List Char)
  | '\\' :: 'b' :: r => some ('\x08', r)
  | '\\' :: 'f' :: r => some ('\x0c', r)
  | '\\' :: 'n' :: r => some ('\n', r)
  | '\\' :: 'r' :: r => some ('\r', r)
  | '\\' :: 't' :: r => some ('\t', r)
  | '\\' :: 'u' :: '0' :: '0' :: a :: b :: r =>
      some (Char.ofNat (16 * (a.toNat - 48) +
        if b.isDigit then b.toNat - 48 else b.toNat - 87), r)
  | '\\' :: c :: r => some (c, r)
  | c :: r => some (c, r)
  | [] => none

theorem hexDigit_value {n : Nat} (small : n < 16) :
    (if (hexDigit n).isDigit then (hexDigit n).toNat - 48 else (hexDigit n).toNat - 87) = n := by
  interval_cases n <;> decide

theorem unescape_escape (c : Char) (r : List Char) : unescape (escape c ++ r) = some (c, r) := by
  unfold escape
  split_ifs with quote back bs ff nl cr tab control
  all_goals try (subst_vars; rfl)
  · have high : c.toNat / 16 < 2 := by omega
    have low : c.toNat % 16 < 16 := by omega
    have first : (hexDigit (c.toNat / 16)).toNat - 48 = c.toNat / 16 := by
      generalize c.toNat / 16 = n at high
      interval_cases n <;> decide
    simp only [List.cons_append, List.nil_append, unescape, hexDigit_value low, first]
    rw [Nat.div_add_mod, Char.ofNat_toNat]
  · simp [unescape, back]

theorem escape_head (c : Char) : ∃ x xs, escape c = x :: xs ∧ x ≠ '"' := by
  unfold escape
  split_ifs with quote back bs ff nl cr tab control
  case neg => exact ⟨c, [], rfl, quote⟩
  all_goals exact ⟨_, _, rfl, by decide⟩

theorem escaped_inj {cs ds r r' : List Char}
    (h : cs.flatMap escape ++ '"' :: r = ds.flatMap escape ++ '"' :: r') : cs = ds ∧ r = r' := by
  induction cs generalizing ds with
  | nil =>
      cases ds with
      | nil => simpa using h
      | cons d ds =>
          obtain ⟨x, xs, head, notQuote⟩ := escape_head d
          rw [List.flatMap_cons, head] at h
          exact absurd (List.cons.inj h).1.symm notQuote
  | cons c cs ih =>
      cases ds with
      | nil =>
          obtain ⟨x, xs, head, notQuote⟩ := escape_head c
          rw [List.flatMap_cons, head] at h
          exact absurd (List.cons.inj h).1 notQuote
      | cons d ds =>
          simp only [List.flatMap_cons, List.append_assoc] at h
          have read := congrArg unescape h
          rw [unescape_escape, unescape_escape] at read
          obtain ⟨same, rest⟩ := Prod.mk.inj (Option.some.inj read)
          obtain ⟨tails, ends⟩ := ih rest
          exact ⟨by rw [same, tails], ends⟩

theorem quote_inj {s t : String} {r r' : List Char} (h : quote s ++ r = quote t ++ r') :
    s = t ∧ r = r' := by
  simp only [quote, List.cons_append, List.append_assoc, List.nil_append, List.cons.injEq,
    true_and] at h
  obtain ⟨same, rest⟩ := escaped_inj h
  exact ⟨String.toList_inj.mp same, rest⟩

/-- What follows a value inside canonical JSON. -/
def Stops (r : List Char) : Prop := ∀ c ∈ r.head?, c = ',' ∨ c = ']' ∨ c = '}'

theorem Stops.comma (r : List Char) : Stops (',' :: r) := by
  rintro _ ⟨⟩
  exact Or.inl rfl

theorem Stops.bracket (r : List Char) : Stops (']' :: r) := by
  rintro _ ⟨⟩
  exact Or.inr (Or.inl rfl)

theorem Stops.brace (r : List Char) : Stops ('}' :: r) := by
  rintro _ ⟨⟩
  exact Or.inr (Or.inr rfl)

theorem numberToken_inj {t u r r' : List Char} (tokenT : t.all numberChar)
    (tokenU : u.all numberChar) (stops : Stops r) (stops' : Stops r')
    (h : t ++ r = u ++ r') : t = u ∧ r = r' := by
  have apart : ∀ {c : Char} {cs x : List Char}, Stops x → numberChar c = true → x ≠ c :: cs := by
    rintro c cs x stop number rfl
    rcases stop c rfl with rfl | rfl | rfl <;> exact absurd number (by decide)
  induction t generalizing u with
  | nil =>
      cases u with
      | nil => exact ⟨rfl, h⟩
      | cons c u =>
          simp only [List.all_cons, Bool.and_eq_true] at tokenU
          exact absurd h (apart stops tokenU.1)
  | cons c t ih =>
      simp only [List.all_cons, Bool.and_eq_true] at tokenT
      cases u with
      | nil => exact absurd h.symm (apart stops' tokenT.1)
      | cons d u =>
          simp only [List.all_cons, Bool.and_eq_true] at tokenU
          obtain ⟨same, rest⟩ := List.cons.inj h
          obtain ⟨tails, ends⟩ := ih tokenT.2 tokenU.2 rest
          exact ⟨by rw [same, tails], ends⟩

/-- The characters of a printed integer. -/
theorem intText_chars (n : Int) {c : Char} (mem : c ∈ (Int.repr n).toList) :
    c.isDigit = true ∨ c = '-' := by
  have digits : ∀ m : Nat, c ∈ (Nat.repr m).toList → c.isDigit = true := by
    intro m inside
    rw [Nat.toList_repr] at inside
    exact Nat.isDigit_of_mem_toDigits (by decide) (by decide) inside
  cases n with
  | ofNat m => exact Or.inl (digits m mem)
  | negSucc m =>
      simp only [Int.repr, String.toList_append] at mem
      rcases List.mem_append.mp mem with sign | inside
      · exact Or.inr (by simpa using sign)
      · exact Or.inl (digits _ inside)

theorem intText_ne_nil (n : Int) : (Int.repr n).toList ≠ [] := by
  cases n with
  | ofNat m =>
      simp only [Int.repr, Nat.toList_repr]
      exact Nat.toDigits_ne_nil
  | negSucc m => simp [Int.repr]

theorem Number.text_token {n : Number} (printable : n.printable) : n.text.all numberChar := by
  cases n with
  | int n =>
      refine List.all_eq_true.mpr fun c mem => ?_
      rcases intText_chars n mem with digit | rfl
      · simp [numberChar, digit]
      · decide
  | fraction t isFraction =>
      simp only [fractionText, Bool.and_eq_true] at isFraction
      exact isFraction.1.1
  | infinite negative => cases printable
  | nan => cases printable

theorem Number.text_head {n : Number} (printable : n.printable) :
    ∃ c t, n.text = c :: t ∧ (c.isDigit = true ∨ c = '-') := by
  cases n with
  | int n =>
      cases text : (Int.repr n).toList with
      | nil => exact absurd text (intText_ne_nil n)
      | cons c t => exact ⟨c, t, text, intText_chars n (by simp [text])⟩
  | fraction t isFraction =>
      simp only [fractionText, Bool.and_eq_true] at isFraction
      have head := isFraction.2
      cases text : t.toList with
      | nil => rw [text] at head; cases head
      | cons c cs =>
          rw [text] at head
          exact ⟨c, cs, text, by simpa using head⟩
  | infinite negative => cases printable
  | nan => cases printable

/-- An integer and a fraction print differently. -/
theorem intText_ne_fraction (n : Int) {t : List Char} (isFraction : fractionText t = true) :
    (Int.repr n).toList ≠ t := by
  rintro rfl
  simp only [fractionText, Bool.and_eq_true, List.any_eq_true] at isFraction
  obtain ⟨⟨_, c, mem, point⟩, _⟩ := isFraction
  rcases intText_chars n mem with digit | rfl
  · simp only [Bool.or_eq_true, beq_iff_eq] at point
    rcases point with rfl | rfl <;> exact absurd digit (by decide)
  · exact absurd point (by decide)

theorem Number.text_inj {m n : Number} (pm : m.printable) (pn : n.printable)
    (h : m.text = n.text) : m = n := by
  cases m with
  | int i =>
      cases n with
      | int j => exact congrArg Number.int (Int.repr_injective (String.toList_inj.mp h))
      | fraction t isFraction => exact absurd h (intText_ne_fraction i isFraction)
      | infinite negative => cases pn
      | nan => cases pn
  | fraction t isFraction =>
      cases n with
      | int j => exact absurd h.symm (intText_ne_fraction j isFraction)
      | fraction u isFraction' =>
          have same : t = u := String.toList_inj.mp h
          subst same
          rfl
      | infinite negative => cases pn
      | nan => cases pn
  | infinite negative => cases pm
  | nan => cases pm

/-- The first character of a value's text tells its kind. -/
theorem Value.text_head {v : Value} (printable : v.printable) :
    ∃ c t, v.text = c :: t ∧ c ≠ ']' ∧ c ≠ '}' := by
  cases v with
  | null => exact ⟨'n', _, rfl, by decide, by decide⟩
  | bool b => cases b <;> exact ⟨_, _, rfl, by decide, by decide⟩
  | num n =>
      obtain ⟨c, t, text, head⟩ := Number.text_head printable
      refine ⟨c, t, text, ?_, ?_⟩ <;> rintro rfl <;> rcases head with head | head <;>
        exact absurd head (by decide)
  | str s => cases s <;> exact ⟨'"', _, rfl, by decide, by decide⟩
  | arr items => exact ⟨'[', _, by rw [Value.text], by decide, by decide⟩
  | obj fields => exact ⟨'{', _, by rw [Value.text], by decide, by decide⟩

theorem Number.text_ne {n : Number} (printable : n.printable) {r cs : List Char} {c : Char}
    (other : (c.isDigit || c == '-') = false) : n.text ++ r ≠ c :: cs := by
  obtain ⟨d, t, text, head⟩ := Number.text_head printable
  rw [text]
  rintro h
  obtain ⟨rfl, _⟩ := List.cons.inj h
  rcases head with head | rfl
  · rw [head] at other; cases other
  · cases other

mutual
theorem Value.text_append_inj : ∀ {v w : Value} {r r' : List Char}, v.printable → w.printable →
    Stops r → Stops r' → v.text ++ r = w.text ++ r' → v = w ∧ r = r'
  | .null, w, r, r', _, pw, _, _, h => by
      cases w with
      | null => exact ⟨rfl, by simpa [Value.text] using h⟩
      | bool b => cases b <;> simp [Value.text] at h
      | num n => exact absurd h.symm (Number.text_ne pw (by decide))
      | str s => cases s <;> simp [Value.text, Str.text, quote] at h
      | arr items => simp [Value.text] at h
      | obj fields => simp [Value.text] at h
  | .bool b, w, r, r', _, pw, _, _, h => by
      cases w with
      | null => cases b <;> simp [Value.text] at h
      | bool b' => cases b <;> cases b' <;> simp_all [Value.text]
      | num n => cases b <;> exact absurd h.symm (Number.text_ne pw (by decide))
      | str s => cases b <;> cases s <;> simp [Value.text, Str.text, quote] at h
      | arr items => cases b <;> simp [Value.text] at h
      | obj fields => cases b <;> simp [Value.text] at h
  | .num m, w, r, r', pv, pw, stops, stops', h => by
      cases w with
      | num n =>
          obtain ⟨same, ends⟩ := numberToken_inj (Number.text_token pv) (Number.text_token pw)
            stops stops' h
          exact ⟨congrArg Value.num (Number.text_inj pv pw same), ends⟩
      | null => exact absurd h (Number.text_ne pv (by decide))
      | bool b => cases b <;> exact absurd h (Number.text_ne pv (by decide))
      | str s => cases s <;> exact absurd h (Number.text_ne pv (by decide))
      | arr items => rw [Value.text] at h; exact absurd h (Number.text_ne pv (by decide))
      | obj fields => rw [Value.text] at h; exact absurd h (Number.text_ne pv (by decide))
  | .str (.wellFormed s), w, r, r', _, pw, _, _, h => by
      cases w with
      | null => simp [Value.text, Str.text, quote] at h
      | bool b => cases b <;> simp [Value.text, Str.text, quote] at h
      | num n => exact absurd h.symm (Number.text_ne pw (by decide))
      | str t =>
          cases t with
          | wellFormed t =>
              obtain ⟨rfl, ends⟩ := quote_inj (by simpa [Value.text, Str.text] using h)
              exact ⟨rfl, ends⟩
          | illFormed units unpaired => cases pw
      | arr items => simp [Value.text, Str.text, quote] at h
      | obj fields => simp [Value.text, Str.text, quote] at h
  | .str (.illFormed _ _), _, _, _, pv, _, _, _, _ => by cases pv
  | .arr xs, w, r, r', pv, pw, _, _, h => by
      cases w with
      | null => simp [Value.text] at h
      | bool b => cases b <;> simp [Value.text] at h
      | num n => rw [Value.text] at h; exact absurd h.symm (Number.text_ne pw (by decide))
      | str t => cases t <;> simp [Value.text, Str.text, quote] at h
      | arr ys =>
          simp only [Value.text, List.cons_append, List.append_assoc, List.nil_append,
            List.cons.injEq, true_and] at h
          obtain ⟨same, ends⟩ := itemsText_append_inj (by simpa [Value.printable] using pv)
            (by simpa [Value.printable] using pw) h
          exact ⟨by rw [same], ends⟩
      | obj fields => simp [Value.text] at h
  | .obj fs, w, r, r', pv, pw, _, _, h => by
      cases w with
      | null => simp [Value.text] at h
      | bool b => cases b <;> simp [Value.text] at h
      | num n => rw [Value.text] at h; exact absurd h.symm (Number.text_ne pw (by decide))
      | str t => cases t <;> simp [Value.text, Str.text, quote] at h
      | arr items => simp [Value.text] at h
      | obj gs =>
          simp only [Value.text, List.cons_append, List.append_assoc, List.nil_append,
            List.cons.injEq, true_and] at h
          obtain ⟨same, ends⟩ := fieldsText_append_inj (by simpa [Value.printable] using pv)
            (by simpa [Value.printable] using pw) h
          exact ⟨by rw [same], ends⟩

theorem itemsText_append_inj : ∀ {xs ys : List Value} {r r' : List Char}, printableItems xs →
    printableItems ys → itemsText xs ++ ']' :: r = itemsText ys ++ ']' :: r' →
    xs = ys ∧ r = r'
  | [], ys, r, r', _, py, h => by
      cases ys with
      | nil => exact ⟨rfl, by simpa [itemsText] using h⟩
      | cons w ys =>
          simp only [printableItems, Bool.and_eq_true] at py
          obtain ⟨c, t, text, close, _⟩ := Value.text_head py.1
          cases ys <;> simp only [itemsText, text, List.nil_append, List.cons_append,
            List.cons.injEq] at h <;> exact absurd h.1.symm close
  | [v], ys, r, r', px, py, h => by
      simp only [printableItems, Bool.and_eq_true] at px
      match ys with
      | [] =>
          obtain ⟨c, t, text, close, _⟩ := Value.text_head px.1
          simp only [itemsText, text, List.nil_append, List.cons_append, List.cons.injEq] at h
          exact absurd h.1 close
      | [w] =>
          simp only [printableItems, Bool.and_eq_true] at py
          obtain ⟨same, ends⟩ := Value.text_append_inj px.1 py.1 (Stops.bracket _)
            (Stops.bracket _) (by simpa [itemsText] using h)
          exact ⟨by rw [same], by simpa using ends⟩
      | w :: w' :: rest =>
          simp only [printableItems, Bool.and_eq_true] at py
          have split := Value.text_append_inj px.1 py.1 (Stops.bracket _)
            (Stops.comma _) (by simpa [itemsText] using h)
          simp at split
  | v :: v' :: more, ys, r, r', px, py, h => by
      have pv : v.printable := by
        simp only [printableItems, Bool.and_eq_true] at px
        exact px.1
      have pmore : printableItems (v' :: more) := by
        rw [printableItems, Bool.and_eq_true] at px
        exact px.2
      match ys with
      | [] =>
          obtain ⟨c, t, text, close, _⟩ := Value.text_head pv
          simp only [itemsText, text, List.nil_append, List.cons_append, List.cons.injEq] at h
          exact absurd h.1 close
      | [w] =>
          simp only [printableItems, Bool.and_eq_true] at py
          have split := Value.text_append_inj pv py.1 (Stops.comma _)
            (Stops.bracket _) (by simpa [itemsText] using h)
          simp at split
      | w :: w' :: rest =>
          rw [printableItems, Bool.and_eq_true] at py
          rw [itemsText, itemsText, List.append_assoc, List.append_assoc] at h
          obtain ⟨same, later⟩ := Value.text_append_inj pv py.1 (Stops.comma _)
            (Stops.comma _) h
          obtain ⟨sames, ends⟩ := itemsText_append_inj pmore py.2 (List.cons.inj later).2
          exact ⟨by rw [same, sames], ends⟩

theorem fieldsText_append_inj : ∀ {fs gs : Fields} {r r' : List Char}, printableFields fs →
    printableFields gs → fieldsText fs ++ '}' :: r = fieldsText gs ++ '}' :: r' →
    fs = gs ∧ r = r'
  | [], gs, r, r', _, pg, h => by
      match gs with
      | [] => exact ⟨rfl, by simpa [fieldsText] using h⟩
      | [(.wellFormed k, w)] => simp [fieldsText, Str.text, quote] at h
      | (.wellFormed k, w) :: g :: rest => simp [fieldsText, Str.text, quote] at h
      | (.illFormed _ _, w) :: rest => cases pg
  | (.illFormed _ _, _) :: _, _, _, _, pf, _, _ => by cases pf
  | [(.wellFormed k, v)], gs, r, r', pf, pg, h => by
      simp only [printableFields, Bool.and_eq_true] at pf
      match gs with
      | [] => simp [fieldsText, Str.text, quote] at h
      | (.illFormed _ _, w) :: rest => cases pg
      | [(.wellFormed l, w)] =>
          simp only [printableFields, Bool.and_eq_true] at pg
          obtain ⟨rfl, values⟩ := quote_inj (by simpa [fieldsText, Str.text] using h)
          obtain ⟨same, ends⟩ := Value.text_append_inj pf.1 pg.1 (Stops.brace _)
            (Stops.brace _) (List.cons.inj values).2
          exact ⟨by rw [same], (List.cons.inj ends).2⟩
      | (.wellFormed l, w) :: g :: rest =>
          rw [printableFields, Bool.and_eq_true] at pg
          obtain ⟨rfl, values⟩ := quote_inj (by simpa [fieldsText, Str.text] using h)
          have split := Value.text_append_inj pf.1 pg.1 (Stops.brace _)
            (Stops.comma _) (List.cons.inj values).2
          simp at split
  | (.wellFormed k, v) :: f :: more, gs, r, r', pf, pg, h => by
      rw [printableFields, Bool.and_eq_true] at pf
      match gs with
      | [] => simp [fieldsText, Str.text, quote] at h
      | (.illFormed _ _, w) :: rest => cases pg
      | [(.wellFormed l, w)] =>
          simp only [printableFields, Bool.and_eq_true] at pg
          obtain ⟨rfl, values⟩ := quote_inj (by simpa [fieldsText, Str.text] using h)
          have split := Value.text_append_inj pf.1 pg.1 (Stops.comma _)
            (Stops.brace _) (List.cons.inj values).2
          simp at split
      | (.wellFormed l, w) :: g :: rest =>
          rw [printableFields, Bool.and_eq_true] at pg
          obtain ⟨rfl, values⟩ := quote_inj (by simpa [fieldsText, Str.text] using h)
          obtain ⟨same, later⟩ := Value.text_append_inj pf.1 pg.1 (Stops.comma _)
            (Stops.comma _) (List.cons.inj values).2
          obtain ⟨sames, ends⟩ := fieldsText_append_inj pf.2 pg.2 (List.cons.inj later).2
          exact ⟨by rw [same, sames], ends⟩
end

/-- **Printing is injective** on the values JSON can print. -/
theorem Value.text_inj {v w : Value} (pv : v.printable) (pw : w.printable)
    (h : v.text = w.text) : v = w :=
  have ends : Stops [] := by
    intro c mem
    cases mem
  (Value.text_append_inj pv pw ends ends (by rw [h])).1

/-! ## Lines -/

theorem hexDigit_ne_newline {n : Nat} (small : n < 16) : hexDigit n ≠ '\n' := by
  interval_cases n <;> decide

theorem newline_notMem_escape (c : Char) : '\n' ∉ escape c := by
  unfold escape
  split_ifs with quote back bs ff nl cr tab control
  any_goals decide
  · simp only [List.mem_cons, List.not_mem_nil, or_false]
    rintro (h | h | h | h | h | h)
    · cases h
    · cases h
    · cases h
    · cases h
    · exact hexDigit_ne_newline (by omega) h.symm
    · exact hexDigit_ne_newline (by omega) h.symm
  · exact fun mem => nl (List.mem_singleton.mp mem).symm

theorem newline_notMem_quote (s : String) : '\n' ∉ quote s := by
  intro mem
  rcases List.mem_cons.mp mem with h | mem
  · cases h
  rcases List.mem_append.mp mem with mem | mem
  · obtain ⟨c, -, inside⟩ := List.mem_flatMap.mp mem
    exact newline_notMem_escape c inside
  · exact absurd (List.mem_singleton.mp mem) (by decide)

theorem newline_notMem_str (s : Str) : '\n' ∉ s.text := by
  cases s with
  | wellFormed s => exact newline_notMem_quote s
  | illFormed units unpaired =>
      intro mem
      rcases List.mem_cons.mp mem with h | mem
      · cases h
      rcases List.mem_append.mp mem with mem | mem
      · obtain ⟨u, -, inside⟩ := List.mem_flatMap.mp mem
        simp only [escapeUnit, List.mem_cons, List.not_mem_nil, or_false] at inside
        rcases inside with h | h | h | h | h | h
        · cases h
        · cases h
        all_goals
          refine hexDigit_ne_newline ?_ h.symm
          have := u.toNat_lt
          omega
      · exact absurd (List.mem_singleton.mp mem) (by decide)

theorem newline_notMem_number (n : Number) : '\n' ∉ n.text := by
  cases n with
  | int n =>
      intro mem
      rcases intText_chars n mem with digit | minus
      · exact absurd digit (by decide)
      · exact absurd minus (by decide)
  | fraction t isFraction =>
      intro mem
      unfold fractionText at isFraction
      rw [Bool.and_eq_true, Bool.and_eq_true] at isFraction
      exact absurd (List.all_eq_true.mp isFraction.1.1 _ mem) (by decide)
  | infinite negative => cases negative <;> decide
  | nan => decide

theorem newline_notMem_items {items : List Value} (each : ∀ v ∈ items, '\n' ∉ v.text) :
    '\n' ∉ itemsText items := by
  induction items with
  | nil => exact List.not_mem_nil
  | cons v rest ih =>
      have tail := ih fun u inside => each u (List.mem_cons_of_mem v inside)
      cases rest with
      | nil => exact each v List.mem_cons_self
      | cons w rest =>
          rw [itemsText]
          intro mem
          rcases List.mem_append.mp mem with mem | mem
          · exact each v List.mem_cons_self mem
          rcases List.mem_cons.mp mem with h | mem
          · cases h
          · exact tail mem

theorem newline_notMem_field (k : Str) {v : Value} (free : '\n' ∉ v.text) :
    '\n' ∉ k.text ++ ':' :: v.text := by
  intro mem
  rcases List.mem_append.mp mem with mem | mem
  · exact newline_notMem_str k mem
  rcases List.mem_cons.mp mem with h | mem
  · cases h
  · exact free mem

theorem newline_notMem_fields {fields : Fields} (each : ∀ f ∈ fields, '\n' ∉ f.2.text) :
    '\n' ∉ fieldsText fields := by
  induction fields with
  | nil => exact List.not_mem_nil
  | cons f rest ih =>
      obtain ⟨k, v⟩ := f
      have head := newline_notMem_field k (each _ List.mem_cons_self)
      have tail := ih fun g inside => each g (List.mem_cons_of_mem _ inside)
      cases rest with
      | nil => exact head
      | cons g rest =>
          rw [fieldsText, ← List.cons_append, ← List.append_assoc]
          intro mem
          rcases List.mem_append.mp mem with mem | mem
          · exact head mem
          rcases List.mem_cons.mp mem with h | mem
          · cases h
          · exact tail mem

/-- A value prints on one line. -/
theorem Value.newline_notMem_text (v : Value) : '\n' ∉ v.text := by
  induction v using Value.ind with
  | null => decide
  | bool b => cases b <;> decide
  | num n => exact newline_notMem_number n
  | str s => exact newline_notMem_str s
  | arr items ih =>
      rw [Value.text]
      intro mem
      rcases List.mem_cons.mp mem with h | mem
      · cases h
      rcases List.mem_append.mp mem with mem | mem
      · exact newline_notMem_items ih mem
      · exact absurd (List.mem_singleton.mp mem) (by decide)
  | obj fields ih =>
      rw [Value.text]
      intro mem
      rcases List.mem_cons.mp mem with h | mem
      · cases h
      rcases List.mem_append.mp mem with mem | mem
      · exact newline_notMem_fields ih mem
      · exact absurd (List.mem_singleton.mp mem) (by decide)

end Js
