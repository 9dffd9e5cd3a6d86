import Knowledger.Lib.JsonNumber
import Knowledger.Lib.JsonEquality

/-!
# JSON texts

`Derives` is the grammar of JSON over syntax trees that keep the members of an object as they
are written, and `JsonText` its texts.  `readText` reads a text; it finds the tree of every
JSON text (`readText_iff`), so a text has one tree.  `jsonParse` is `JSON.parse`: the value of
that tree, where the last member of a name counts.
-/

namespace Js

/-! ## Strings of code units -/

/-- The characters that the code units encode, when every surrogate is paired. -/
def decodeUnits : List UInt16 → List Char
  | [] => []
  | c :: rest =>
      if 0xd800 ≤ c ∧ c ≤ 0xdbff then
        match rest with
        | [] => []
        | next :: rest =>
            Char.ofNat (0x10000 + (c.toNat - 0xd800) * 0x400 + (next.toNat - 0xdc00)) ::
              decodeUnits rest
      else Char.ofNat c.toNat :: decodeUnits rest

def Str.ofUnits (units : List UInt16) : Str :=
  if paired : validUnicode units = true then .wellFormed (String.ofList (decodeUnits units))
  else .illFormed units (Bool.not_eq_true _ ▸ paired)

theorem decodeUnits_append (c : Char) (rest : List UInt16) :
    decodeUnits (charUnits c ++ rest) = c :: decodeUnits rest := by
  have valid : c.toNat < 0xd800 ∨ 0xdfff < c.toNat ∧ c.toNat < 0x110000 := c.valid
  by_cases small : c.toNat < 0x10000
  · obtain ⟨u, units, notHigh, -⟩ := charUnits_single small
    have value : u.toNat = c.toNat := by
      rw [charUnits, if_pos small] at units
      obtain ⟨rfl, -⟩ := List.cons.inj units
      rw [UInt16.toNat_ofNat', Nat.mod_eq_of_lt small]
    rw [units, List.singleton_append, decodeUnits.eq_def]
    dsimp only
    rw [if_neg notHigh, value, Char.ofNat_toNat]
  · obtain ⟨h, l, units, high, -⟩ := charUnits_pair small
    have values : h.toNat = 0xd800 + (c.toNat - 0x10000) / 0x400 ∧
        l.toNat = 0xdc00 + (c.toNat - 0x10000) % 0x400 := by
      rw [charUnits, if_neg small] at units
      obtain ⟨rfl, more⟩ := List.cons.inj units
      obtain ⟨rfl, -⟩ := List.cons.inj more
      rw [UInt16.toNat_ofNat', UInt16.toNat_ofNat']
      omega
    rw [units, List.cons_append, List.singleton_append, decodeUnits.eq_def]
    dsimp only
    rw [if_pos high, values.1, values.2]
    have back : 0x10000 + (0xd800 + (c.toNat - 0x10000) / 0x400 - 0xd800) * 0x400 +
        (0xdc00 + (c.toNat - 0x10000) % 0x400 - 0xdc00) = c.toNat := by
      omega
    rw [back, Char.ofNat_toNat]

theorem decodeUnits_flatMap (cs : List Char) : decodeUnits (cs.flatMap charUnits) = cs := by
  induction cs with
  | nil => rfl
  | cons c cs ih => rw [List.flatMap_cons, decodeUnits_append, ih]

/-- The string of the code units of a string. -/
@[simp] theorem Str.ofUnits_units (s : Str) : Str.ofUnits s.units = s := by
  cases s with
  | wellFormed s =>
      rw [Str.ofUnits, dif_pos (validUnicode_units s)]
      change Str.wellFormed (String.ofList (decodeUnits (s.toList.flatMap charUnits))) = _
      rw [decodeUnits_flatMap, String.ofList_toList]
  | illFormed units unpaired =>
      rw [Str.ofUnits, dif_neg (by
        change ¬ validUnicode units = true
        rw [unpaired]
        decide)]
      rfl

/-! ## The grammar -/

/-- A value as it is written. -/
inductive Tree
  | null
  | bool (b : Bool)
  | num (n : Numeral)
  | str (s : Str)
  | arr (items : List Tree)
  | obj (members : List (Str × Tree))

/-- Induction over a tree. -/
theorem Tree.ind {P : Tree → Prop} (null : P .null) (bool : ∀ b, P (.bool b))
    (num : ∀ n, P (.num n)) (str : ∀ s, P (.str s))
    (arr : ∀ items : List Tree, (∀ t ∈ items, P t) → P (.arr items))
    (obj : ∀ members : List (Str × Tree), (∀ m ∈ members, P m.2) → P (.obj members)) (t : Tree) :
    P t :=
  t.rec null bool num str arr obj (fun _ mem => nomatch mem)
    (fun _ _ head tail => List.forall_mem_cons.mpr ⟨head, tail⟩) (fun _ mem => nomatch mem)
    (fun _ _ head tail => List.forall_mem_cons.mpr ⟨head, tail⟩) fun _ _ second => second

/-- The tree holds the other one inside so many containers. -/
inductive Tree.Holds : Tree → Nat → Tree → Prop
  | self {t : Tree} : t.Holds 0 t
  | item {items : List Tree} {u v : Tree} {n : Nat} (mem : u ∈ items) (below : u.Holds n v) :
      (Tree.arr items).Holds (n + 1) v
  | member {members : List (Str × Tree)} {name : Str} {u v : Tree} {n : Nat}
      (mem : (name, u) ∈ members) (below : u.Holds n v) : (Tree.obj members).Holds (n + 1) v

/-- The white space of JSON. -/
def jsonSpace (c : Char) : Bool := c == ' ' || c == '\t' || c == '\n' || c == '\r'

/-- The text goes on with `s'` behind some characters of the class. -/
def Skips (p : Char → Bool) (s s' : List Char) : Prop := ∃ w, s = w ++ s' ∧ ∀ c ∈ w, p c = true

abbrev Space := Skips jsonSpace

def digit (c : Char) : Bool := c.isDigit

/-- One digit or more. -/
def Digits (ds : List Char) : Prop := ds ≠ [] ∧ ∀ c ∈ ds, digit c = true

/-- `0`, or digits that do not start with `0`. -/
def Whole (ds : List Char) : Prop := ds = ['0'] ∨ Digits ds ∧ ds.head? ≠ some '0'

structure Exponent.Grammatical (e : Exponent) : Prop where
  mark : e.mark = 'e' ∨ e.mark = 'E'
  sign : e.sign = [] ∨ e.sign = ['+'] ∨ e.sign = ['-']
  digits : Digits e.digits

structure Numeral.Grammatical (n : Numeral) : Prop where
  whole : Whole n.whole
  fraction : ∀ c ∈ n.fraction, digit c = true
  exponent : ∀ e, n.exponent = some e → e.Grammatical

/-- A character that stands for itself in a string. -/
def plainChar (c : Char) : Bool := !(c == '"' || c == '\\' || Nat.blt c.toNat 0x20)

/-- What an escaped character stands for. -/
def shortEscape (c : Char) : Option UInt16 :=
  if c = '"' then some 0x22
  else if c = '\\' then some 0x5c
  else if c = '/' then some 0x2f
  else if c = 'b' then some 0x08
  else if c = 'f' then some 0x0c
  else if c = 'n' then some 0x0a
  else if c = 'r' then some 0x0d
  else if c = 't' then some 0x09
  else none

def hexValue (c : Char) : Option Nat :=
  if c.isDigit then some (c.toNat - 48)
  else if 'a' ≤ c ∧ c ≤ 'f' then some (c.toNat - 87)
  else if 'A' ≤ c ∧ c ≤ 'F' then some (c.toNat - 55)
  else none

/-- The code unit of four hexadecimal digits. -/
def hexUnit (a b c d : Char) : Option UInt16 := do
  let a ← hexValue a
  let b ← hexValue b
  let c ← hexValue c
  let d ← hexValue d
  return UInt16.ofNat (4096 * a + 256 * b + 16 * c + d)

/-- The inside of a string with its closing quote, and the text behind it. -/
inductive Inside : List UInt16 → List Char → List Char → Prop
  | close {r : List Char} : Inside [] ('"' :: r) r
  | plain {c : Char} {us : List UInt16} {s r : List Char} (isPlain : plainChar c = true)
      (rest : Inside us s r) : Inside (charUnits c ++ us) (c :: s) r
  | short {c : Char} {u : UInt16} {us : List UInt16} {s r : List Char}
      (escape : shortEscape c = some u) (rest : Inside us s r) : Inside (u :: us) ('\\' :: c :: s) r
  | hex {a b c d : Char} {u : UInt16} {us : List UInt16} {s r : List Char}
      (unit : hexUnit a b c d = some u) (rest : Inside us s r) :
      Inside (u :: us) ('\\' :: 'u' :: a :: b :: c :: d :: s) r

/-- The symbols of the grammar: a value, and the items or members up to the closing bracket. -/
inductive Phrase
  | value (t : Tree)
  | items (ts : List Tree)
  | members (ms : List (Str × Tree))

/-- **The grammar.**  A text has the phrase at its start, and goes on with the rest. -/
inductive Derives : Phrase → List Char → List Char → Prop
  | nullWord {r : List Char} : Derives (.value .null) ("null".toList ++ r) r
  | trueWord {r : List Char} : Derives (.value (.bool true)) ("true".toList ++ r) r
  | falseWord {r : List Char} : Derives (.value (.bool false)) ("false".toList ++ r) r
  | num {n : Numeral} {r : List Char} (grammatical : n.Grammatical) :
      Derives (.value (.num n)) (n.text ++ r) r
  | str {us : List UInt16} {s r : List Char} (inside : Inside us s r) :
      Derives (.value (.str (.ofUnits us))) ('"' :: s) r
  | emptyArr {s r : List Char} (space : Space s (']' :: r)) :
      Derives (.value (.arr [])) ('[' :: s) r
  | arr {ts : List Tree} {s r : List Char} (items : Derives (.items ts) s r) :
      Derives (.value (.arr ts)) ('[' :: s) r
  | emptyObj {s r : List Char} (space : Space s ('}' :: r)) :
      Derives (.value (.obj [])) ('{' :: s) r
  | obj {ms : List (Str × Tree)} {s r : List Char} (members : Derives (.members ms) s r) :
      Derives (.value (.obj ms)) ('{' :: s) r
  | lastItem {t : Tree} {s s₁ s₂ r : List Char} (before : Space s s₁)
      (item : Derives (.value t) s₁ s₂) (after : Space s₂ (']' :: r)) : Derives (.items [t]) s r
  | item {t : Tree} {ts : List Tree} {s s₁ s₂ s₃ r : List Char} (before : Space s s₁)
      (item : Derives (.value t) s₁ s₂) (after : Space s₂ (',' :: s₃))
      (more : Derives (.items ts) s₃ r) : Derives (.items (t :: ts)) s r
  | lastMember {us : List UInt16} {t : Tree} {s s₁ s₂ s₃ s₄ s₅ r : List Char}
      (before : Space s ('"' :: s₁)) (name : Inside us s₁ s₂) (colon : Space s₂ (':' :: s₃))
      (between : Space s₃ s₄) (value : Derives (.value t) s₄ s₅) (after : Space s₅ ('}' :: r)) :
      Derives (.members [(.ofUnits us, t)]) s r
  | member {us : List UInt16} {t : Tree} {ms : List (Str × Tree)} {s s₁ s₂ s₃ s₄ s₅ s₆ r : List Char}
      (before : Space s ('"' :: s₁)) (name : Inside us s₁ s₂) (colon : Space s₂ (':' :: s₃))
      (between : Space s₃ s₄) (value : Derives (.value t) s₄ s₅) (after : Space s₅ (',' :: s₆))
      (more : Derives (.members ms) s₆ r) : Derives (.members ((.ofUnits us, t) :: ms)) s r

/-- A JSON text: one value between white space. -/
def JsonText (t : Tree) (text : List Char) : Prop :=
  ∃ s r, Space text s ∧ Derives (.value t) s r ∧ Space r []

/-! ## Reading -/

def skip (p : Char → Bool) (s : List Char) : List Char := s.dropWhile p

/-- Digits behind a point, if there are any. -/
def readFraction (s : List Char) : List Char × List Char :=
  match s with
  | '.' :: rest =>
      if rest.takeWhile digit = [] then ([], s) else (rest.takeWhile digit, rest.dropWhile digit)
  | _ => ([], s)

def readSign : List Char → List Char × List Char
  | '+' :: rest => (['+'], rest)
  | '-' :: rest => (['-'], rest)
  | rest => ([], rest)

def readExponent (s : List Char) : Option Exponent × List Char :=
  match s with
  | [] => (none, s)
  | mark :: rest =>
      if mark = 'e' ∨ mark = 'E' then
        let (sign, rest) := readSign rest
        if rest.takeWhile digit = [] then (none, s)
        else (some ⟨mark, sign, rest.takeWhile digit⟩, rest.dropWhile digit)
      else (none, s)

def readWhole : List Char → Option (List Char × List Char)
  | [] => none
  | c :: rest =>
      if c = '0' then some (['0'], rest)
      else if digit c then some (c :: rest.takeWhile digit, rest.dropWhile digit)
      else none

/-- `-?(?:0|[1-9][0-9]*)(?:\.[0-9]+)?(?:[eE][+-]?[0-9]+)?` -/
def readNumeral (s : List Char) : Option (Numeral × List Char) := do
  let negative := s.head? == some '-'
  let (whole, rest) ← readWhole (if negative then s.tail else s)
  let (fraction, rest) := readFraction rest
  let (exponent, rest) := readExponent rest
  return (⟨negative, whole, fraction, exponent⟩, rest)

/-- The code units up to the closing quote. -/
def readInside : List Char → Option (List UInt16 × List Char)
  | [] => none
  | '\\' :: 'u' :: a :: b :: c :: d :: s => do
      let u ← hexUnit a b c d
      let (us, r) ← readInside s
      return (u :: us, r)
  | '\\' :: c :: s => do
      let u ← shortEscape c
      let (us, r) ← readInside s
      return (u :: us, r)
  | c :: s =>
      if c = '"' then some ([], s)
      else if plainChar c then do
        let (us, r) ← readInside s
        return (charUnits c ++ us, r)
      else none

/-- `true|false|null` or a numeral. -/
def readPrimitive (s : List Char) : Option (Tree × List Char) :=
  if "true".toList.isPrefixOf s then some (.bool true, s.drop 4)
  else if "false".toList.isPrefixOf s then some (.bool false, s.drop 5)
  else if "null".toList.isPrefixOf s then some (.null, s.drop 4)
  else (readNumeral s).map fun (n, r) => (.num n, r)

mutual
def readValue : Nat → List Char → Option (Tree × List Char)
  | 0, _ => none
  | fuel + 1, s =>
      match s with
      | '[' :: rest =>
          match skip jsonSpace rest with
          | ']' :: r => some (.arr [], r)
          | rest => do
              let (ts, r) ← readItems fuel rest
              return (.arr ts, r)
      | '{' :: rest =>
          match skip jsonSpace rest with
          | '}' :: r => some (.obj [], r)
          | rest => do
              let (ms, r) ← readMembers fuel rest
              return (.obj ms, r)
      | '"' :: rest => do
          let (us, r) ← readInside rest
          return (.str (.ofUnits us), r)
      | s => readPrimitive s

def readItems : Nat → List Char → Option (List Tree × List Char)
  | 0, _ => none
  | fuel + 1, s => do
      let (t, rest) ← readValue fuel (skip jsonSpace s)
      match skip jsonSpace rest with
      | ']' :: r => return ([t], r)
      | ',' :: rest =>
          let (ts, r) ← readItems fuel rest
          return (t :: ts, r)
      | _ => none

def readMembers : Nat → List Char → Option (List (Str × Tree) × List Char)
  | 0, _ => none
  | fuel + 1, s =>
      match skip jsonSpace s with
      | '"' :: rest => do
          let (us, rest) ← readInside rest
          match skip jsonSpace rest with
          | ':' :: rest =>
              let (t, rest) ← readValue fuel (skip jsonSpace rest)
              match skip jsonSpace rest with
              | '}' :: r => return ([(.ofUnits us, t)], r)
              | ',' :: rest =>
                  let (ms, r) ← readMembers fuel rest
                  return ((.ofUnits us, t) :: ms, r)
              | _ => none
          | _ => none
      | _ => none
end

/-- Every call passes a character of the text, so its length is fuel enough. -/
def readText (text : List Char) : Option Tree := do
  let (t, rest) ← readValue (text.length + 1) (skip jsonSpace text)
  guard (skip jsonSpace rest = [])
  return t

/-! ## The value of a tree -/

/-- A property name that is an array index: these come first, in ascending order. -/
def arrayIndex : Str → Option Nat
  | .wellFormed s =>
      let n := Nat.ofDigitChars 10 s.toList 0
      if Nat.toDigits 10 n = s.toList ∧ n < 4294967295 then some n else none
  | .illFormed _ _ => none

/-- The property comes before the other in the order of the own properties. -/
def comesBefore (key other : Str) : Bool :=
  match arrayIndex key, arrayIndex other with
  | some i, some j => i < j
  | some _, none => true
  | none, _ => false

/-- A property is changed in its place, or created where its order puts it. -/
def Fields.define (fields : Fields) (key : Str) (value : Value) : Fields :=
  if key ∈ fields.keys then fields.map fun f => if f.1 = key then (key, value) else f
  else fields.takeWhile (fun f => !comesBefore key f.1) ++
    (key, value) :: fields.dropWhile (fun f => !comesBefore key f.1)

mutual
def Tree.value : Tree → Value
  | .null => .null
  | .bool b => .bool b
  | .num n => .num n.number
  | .str s => .str s
  | .arr items => .arr (itemValues items)
  | .obj members => .obj (memberValues [] members)

def itemValues : List Tree → List Value
  | [] => []
  | t :: rest => t.value :: itemValues rest

def memberValues (fields : Fields) : List (Str × Tree) → Fields
  | [] => fields
  | (key, t) :: rest => memberValues (fields.define key t.value) rest
end

/-- `JSON.parse`; no value is a `SyntaxError`. -/
def jsonParse (text : List Char) : Option Value := (readText text).map Tree.value

/-! ## White space -/

section Skipping

variable {p q : Char → Bool} {s s' : List Char}

theorem skip_eq (skips : Skips q s s') (sub : ∀ c, q c = true → p c = true)
    (stops : ∀ c ∈ s'.head?, p c = false) : skip p s = s' := by
  obtain ⟨w, rfl, space⟩ := skips
  have none : s'.dropWhile p = s' := by
    cases s' with
    | nil => rfl
    | cons c rest => rw [List.dropWhile_cons_of_neg (by simpa using stops c rfl)]
  rw [skip, List.dropWhile_append_of_pos fun c mem => sub c (space c mem), none]

theorem skips_skip : Skips p s (skip p s) :=
  ⟨s.takeWhile p, (List.takeWhile_append_dropWhile).symm, fun _ mem => List.mem_takeWhile_imp mem⟩

theorem Skips.length (skips : Skips p s s') : s'.length ≤ s.length := by
  obtain ⟨w, rfl, -⟩ := skips
  rw [List.length_append]
  omega

end Skipping

/-- The start of a value. -/
def valueStart (c : Char) : Bool :=
  c == '"' || c == '[' || c == '{' || c == '-' || digit c || c == 't' || c == 'f' || c == 'n'

/-- No numeral goes on here. -/
def Ends (r : List Char) : Prop :=
  ∀ c ∈ r.head?, digit c = false ∧ c ≠ '.' ∧ c ≠ 'e' ∧ c ≠ 'E'

theorem Ends.of_space {r s : List Char} (space : Space r s)
    (ends : ∀ c ∈ s.head?, digit c = false ∧ c ≠ '.' ∧ c ≠ 'e' ∧ c ≠ 'E') : Ends r := by
  obtain ⟨w, rfl, spaces⟩ := space
  cases w with
  | nil => exact ends
  | cons c w =>
      intro d is
      obtain rfl : c = d := by simpa using is
      have isSpace := spaces c List.mem_cons_self
      simp only [jsonSpace, Bool.or_eq_true, beq_iff_eq] at isSpace
      rcases isSpace with ((rfl | rfl) | rfl) | rfl
      all_goals decide

/-! ## Numerals are read whole -/

section Numerals

variable {ds r s : List Char}

theorem takeWhile_digits (all : ∀ c ∈ ds, digit c = true)
    (stops : ∀ c ∈ r.head?, digit c = false) :
    (ds ++ r).takeWhile digit = ds ∧ (ds ++ r).dropWhile digit = r := by
  have none : r.takeWhile digit = [] ∧ r.dropWhile digit = r := by
    cases r with
    | nil => exact ⟨rfl, rfl⟩
    | cons c rest =>
        have not : ¬ digit c = true := by simpa using stops c rfl
        rw [List.takeWhile_cons_of_neg not, List.dropWhile_cons_of_neg not]
        exact ⟨rfl, rfl⟩
  rw [List.takeWhile_append_of_pos all, List.dropWhile_append_of_pos all, none.1, none.2,
    List.append_nil]
  exact ⟨rfl, rfl⟩

theorem digits_takeWhile : ∀ c ∈ s.takeWhile digit, digit c = true := fun _ mem =>
  List.mem_takeWhile_imp mem

theorem readExponent_text {e : Option Exponent} (grammatical : ∀ x, e = some x → x.Grammatical)
    (ends : Ends r) : readExponent (exponentText e ++ r) = (e, r) := by
  cases e with
  | none =>
      cases r with
      | nil => rfl
      | cons c rest =>
          obtain ⟨-, -, notLower, notUpper⟩ := ends c rfl
          simp [exponentText, readExponent, notLower, notUpper]
  | some e =>
      obtain ⟨mark, sign, nonempty, digits⟩ := grammatical e rfl
      obtain ⟨taken, dropped⟩ := takeWhile_digits digits fun c is => (ends c is).1
      have signed : readSign (e.sign ++ (e.digits ++ r)) = (e.sign, e.digits ++ r) := by
        rcases sign with none | plus | minus
        · rw [none]
          cases found : e.digits with
          | nil => exact absurd found nonempty
          | cons c rest =>
              have isDigit := digits c (found ▸ List.mem_cons_self)
              have notPlus : c ≠ '+' := by
                rintro rfl
                exact absurd isDigit (by decide)
              have notMinus : c ≠ '-' := by
                rintro rfl
                exact absurd isDigit (by decide)
              simp only [List.nil_append, List.cons_append]
              unfold readSign
              split
              · exact absurd (List.cons.inj ‹_›).1 notPlus
              · exact absurd (List.cons.inj ‹_›).1 notMinus
              · rfl
        · rw [plus]
          rfl
        · rw [minus]
          rfl
      simp only [exponentText, Exponent.text, List.cons_append, List.append_assoc, readExponent,
        if_pos mark, signed, taken, dropped, if_neg nonempty]

theorem readFraction_text (digits : ∀ c ∈ ds, digit c = true)
    (ends : ∀ c ∈ r.head?, digit c = false ∧ c ≠ '.') :
    readFraction (fractionPart ds ++ r) = (ds, r) := by
  cases ds with
  | nil =>
      cases r with
      | nil => rfl
      | cons c rest =>
          have notPoint := (ends c rfl).2
          simp only [fractionPart, List.nil_append]
          unfold readFraction
          split
          · exact absurd (List.cons.inj ‹_›).1 notPoint
          · rfl
  | cons d ds =>
      obtain ⟨taken, dropped⟩ := takeWhile_digits digits fun c is => (ends c is).1
      simp only [fractionPart, List.cons_append] at taken dropped ⊢
      simp only [readFraction, taken, dropped, if_neg (List.cons_ne_nil _ _)]

theorem readWhole_text (whole : Whole ds) (ends : ∀ c ∈ r.head?, digit c = false) :
    readWhole (ds ++ r) = some (ds, r) := by
  rcases whole with rfl | ⟨⟨nonempty, digits⟩, notZero⟩
  · rfl
  · cases ds with
    | nil => exact absurd rfl nonempty
    | cons d ds =>
        obtain ⟨taken, dropped⟩ := takeWhile_digits
          (fun c mem => digits c (List.mem_cons_of_mem _ mem)) ends
        have other : d ≠ '0' := fun same => notZero (congrArg some same)
        simp only [List.cons_append, readWhole, if_neg other, if_pos (digits d List.mem_cons_self),
          taken, dropped]

theorem exponentText_head {e : Option Exponent} (grammatical : ∀ x, e = some x → x.Grammatical)
    (ends : Ends r) : ∀ c ∈ (exponentText e ++ r).head?, digit c = false ∧ c ≠ '.' := by
  cases e with
  | none => exact fun c is => ⟨(ends c is).1, (ends c is).2.1⟩
  | some e =>
      intro c is
      obtain rfl : e.mark = c := by simpa [exponentText, Exponent.text] using is
      rcases (grammatical e rfl).mark with lower | upper
      · rw [lower]
        decide
      · rw [upper]
        decide

theorem fractionPart_head (ends : ∀ c ∈ s.head?, digit c = false ∧ c ≠ '.') :
    ∀ c ∈ (fractionPart ds ++ s).head?, digit c = false := by
  cases ds with
  | nil => exact fun c is => (ends c is).1
  | cons d ds =>
      intro c is
      obtain rfl : '.' = c := by simpa [fractionPart] using is
      decide

theorem Whole.head (whole : Whole ds) : ∃ d rest, ds = d :: rest ∧ digit d = true := by
  rcases whole with rfl | ⟨⟨nonempty, digits⟩, -⟩
  · exact ⟨'0', [], rfl, by decide⟩
  · cases ds with
    | nil => exact absurd rfl nonempty
    | cons d ds => exact ⟨d, ds, rfl, digits d List.mem_cons_self⟩

/-- A numeral is read with all its characters. -/
theorem readNumeral_text {n : Numeral} (grammatical : n.Grammatical) (ends : Ends r) :
    readNumeral (n.text ++ r) = some (n, r) := by
  have exponent := readExponent_text grammatical.exponent ends
  have afterFraction := exponentText_head grammatical.exponent ends
  have fraction := readFraction_text grammatical.fraction afterFraction
  have whole := readWhole_text (r := fractionPart n.fraction ++ (exponentText n.exponent ++ r))
    grammatical.whole (fractionPart_head afterFraction)
  obtain ⟨d, rest, isWhole, isDigit⟩ := grammatical.whole.head
  have notMinus : d ≠ '-' := by
    rintro rfl
    exact absurd isDigit (by decide)
  obtain ⟨negative, ds, fs, e⟩ := n
  dsimp only at isWhole exponent fraction whole
  have text : (Numeral.text ⟨negative, ds, fs, e⟩ ++ r) =
      (if negative then ['-'] else []) ++ (ds ++ (fractionPart fs ++ (exponentText e ++ r))) := by
    simp only [Numeral.text, List.append_assoc]
  have sign : ((ds ++ (fractionPart fs ++ (exponentText e ++ r))).head? == some '-') = false := by
    simp [isWhole, notMinus]
  unfold readNumeral
  rw [text]
  cases negative with
  | true =>
      simp only [if_pos, List.singleton_append, List.head?_cons, BEq.rfl, List.tail_cons, whole,
        Option.bind_eq_bind, Option.bind_some, fraction, exponent, Option.pure_def]
  | false =>
      simp only [Bool.false_eq_true, if_false, List.nil_append, sign, whole, Option.bind_eq_bind,
        Option.bind_some, fraction, exponent, Option.pure_def]

theorem readExponent_sound {e : Option Exponent} (run : readExponent s = (e, r)) :
    (∀ x, e = some x → x.Grammatical) ∧ s = exponentText e ++ r := by
  unfold readExponent at run
  split at run
  · obtain ⟨rfl, rfl⟩ := Prod.mk.inj run
    exact ⟨nofun, rfl⟩
  · rename_i mark rest
    split_ifs at run with isMark
    · dsimp only at run
      split_ifs at run with none
      · obtain ⟨rfl, rfl⟩ := Prod.mk.inj run
        exact ⟨nofun, rfl⟩
      · obtain ⟨rfl, rfl⟩ := Prod.mk.inj run
        have signs : ((readSign rest).1 = [] ∨ (readSign rest).1 = ['+'] ∨
            (readSign rest).1 = ['-']) ∧ rest = (readSign rest).1 ++ (readSign rest).2 := by
          unfold readSign
          split <;> simp
        refine ⟨fun x is => ?_, ?_⟩
        · obtain rfl := Option.some.inj is
          exact ⟨isMark, signs.1, none, digits_takeWhile⟩
        · rw [exponentText, Exponent.text, List.cons_append, List.append_assoc,
            List.takeWhile_append_dropWhile]
          exact congrArg (mark :: ·) signs.2
    · obtain ⟨rfl, rfl⟩ := Prod.mk.inj run
      exact ⟨nofun, rfl⟩

theorem readFraction_sound (run : readFraction s = (ds, r)) :
    (∀ c ∈ ds, digit c = true) ∧ s = fractionPart ds ++ r := by
  unfold readFraction at run
  split at run
  · rename_i rest
    split_ifs at run with none
    · obtain ⟨rfl, rfl⟩ := Prod.mk.inj run
      exact ⟨nofun, rfl⟩
    · obtain ⟨rfl, rfl⟩ := Prod.mk.inj run
      refine ⟨digits_takeWhile, ?_⟩
      have split := (List.takeWhile_append_dropWhile (p := digit) (l := rest)).symm
      cases taken : rest.takeWhile digit with
      | nil => exact absurd taken none
      | cons d ds =>
          rw [taken] at split
          exact congrArg ('.' :: ·) split
  · obtain ⟨rfl, rfl⟩ := Prod.mk.inj run
    exact ⟨nofun, rfl⟩

theorem readWhole_sound (run : readWhole s = some (ds, r)) : Whole ds ∧ s = ds ++ r := by
  unfold readWhole at run
  split at run
  · cases run
  · rename_i c rest
    split_ifs at run with zero isDigit
    · obtain ⟨rfl, rfl⟩ := Prod.mk.inj (Option.some.inj run)
      exact ⟨Or.inl rfl, congrArg (· :: _) zero⟩
    · obtain ⟨rfl, rfl⟩ := Prod.mk.inj (Option.some.inj run)
      refine ⟨Or.inr ⟨⟨List.cons_ne_nil _ _, fun d mem => ?_⟩, fun is => zero ?_⟩, ?_⟩
      · rcases List.mem_cons.mp mem with rfl | later
        · exact isDigit
        · exact digits_takeWhile d later
      · exact Option.some.inj is
      · rw [List.cons_append, List.takeWhile_append_dropWhile]

/-- What is read is a numeral. -/
theorem readNumeral_sound {n : Numeral} (run : readNumeral s = some (n, r)) :
    n.Grammatical ∧ s = n.text ++ r := by
  unfold readNumeral at run
  simp only [Option.bind_eq_bind, Option.bind_eq_some_iff, Option.pure_def] at run
  obtain ⟨⟨whole, rest⟩, readsWhole, is⟩ := run
  obtain ⟨rfl, rfl⟩ := Prod.mk.inj (Option.some.inj is)
  obtain ⟨isWhole, first⟩ := readWhole_sound readsWhole
  obtain ⟨digits, second⟩ := readFraction_sound
    (show readFraction rest = ((readFraction rest).1, (readFraction rest).2) from rfl)
  obtain ⟨exponent, third⟩ := readExponent_sound
    (show readExponent (readFraction rest).2 =
      ((readExponent (readFraction rest).2).1, (readExponent (readFraction rest).2).2) from rfl)
  refine ⟨⟨isWhole, digits, exponent⟩, ?_⟩
  unfold Numeral.text
  dsimp only
  rw [List.append_assoc, List.append_assoc, List.append_assoc, ← third, ← second, ← first]
  by_cases negative : (s.head? == some '-') = true
  · rw [if_pos negative, if_pos negative]
    cases s with
    | nil => exact absurd negative (by decide)
    | cons c rest =>
        rw [beq_iff_eq, List.head?_cons, Option.some.injEq] at negative
        rw [negative]
        rfl
  · rw [if_neg negative, if_neg negative]
    rfl

end Numerals

/-! ## Strings are read whole -/

section Strings

variable {us : List UInt16} {s r : List Char}

theorem shortEscape_u : shortEscape 'u' = none := by decide

theorem readInside_text (inside : Inside us s r) : readInside s = some (us, r) := by
  induction inside with
  | close => rfl
  | @plain c us s r isPlain rest ih =>
      have notQuote : c ≠ '"' := by
        rintro rfl
        exact absurd isPlain (by decide)
      have notBackslash : c ≠ '\\' := by
        rintro rfl
        exact absurd isPlain (by decide)
      rw [readInside.eq_def]
      split
      · rename_i same
        cases same
      · rename_i same
        exact absurd (List.cons.inj same).1 notBackslash
      · rename_i same
        exact absurd (List.cons.inj same).1 notBackslash
      · rename_i same
        obtain ⟨rfl, rfl⟩ := List.cons.inj same
        rw [if_neg notQuote, if_pos isPlain, ih]
        rfl
  | @short c u us s r escape rest ih =>
      have notU : c ≠ 'u' := by
        rintro rfl
        rw [shortEscape_u] at escape
        cases escape
      rw [readInside.eq_def]
      split
      · rename_i same
        cases same
      · rename_i same
        exact absurd (List.cons.inj (List.cons.inj same).2).1 notU
      · rename_i same
        obtain ⟨rfl, rfl⟩ := List.cons.inj (List.cons.inj same).2
        rw [escape, Option.bind_eq_bind, Option.bind_some, ih]
        rfl
      · rename_i other same
        exact (other c s (List.cons.inj same).1.symm (List.cons.inj same).2.symm).elim
  | hex unit rest ih =>
      rw [readInside, unit, Option.bind_eq_bind, Option.bind_some, ih]
      rfl

theorem readInside_sound (run : readInside s = some (us, r)) : Inside us s r := by
  fun_induction readInside s generalizing us r with
  | case1 => cases run
  | case2 a b c d s ih =>
      simp only [Option.bind_eq_bind, Option.bind_eq_some_iff, Option.pure_def] at run
      obtain ⟨u, unit, ⟨vs, t⟩, rest, is⟩ := run
      obtain ⟨rfl, rfl⟩ := Prod.mk.inj (Option.some.inj is)
      exact .hex unit (ih rest)
  | case3 c s _ ih =>
      simp only [Option.bind_eq_bind, Option.bind_eq_some_iff, Option.pure_def] at run
      obtain ⟨u, escape, ⟨vs, t⟩, rest, is⟩ := run
      obtain ⟨rfl, rfl⟩ := Prod.mk.inj (Option.some.inj is)
      exact .short escape (ih rest)
  | case4 s =>
      obtain ⟨rfl, rfl⟩ := Prod.mk.inj (Option.some.inj run)
      exact .close
  | case5 c s _ _ notQuote isPlain ih =>
      simp only [Option.bind_eq_bind, Option.bind_eq_some_iff, Option.pure_def] at run
      obtain ⟨⟨vs, t⟩, rest, is⟩ := run
      obtain ⟨rfl, rfl⟩ := Prod.mk.inj (Option.some.inj is)
      exact .plain isPlain (ih rest)
  | case6 => cases run

theorem Inside.length (inside : Inside us s r) : r.length < s.length := by
  induction inside with
  | close => simp
  | plain _ _ ih => simp only [List.length_cons]; omega
  | short _ _ ih => simp only [List.length_cons]; omega
  | hex _ _ ih => simp only [List.length_cons]; omega

end Strings

/-! ## Texts are read whole -/

section Values

variable {p : Phrase} {t : Tree} {ts : List Tree} {s s' r : List Char} {fuel : Nat}

theorem Numeral.head {n : Numeral} (grammatical : n.Grammatical) :
    ∃ c rest, n.text = c :: rest ∧ (c = '-' ∨ digit c = true) := by
  obtain ⟨d, rest, isWhole, isDigit⟩ := grammatical.whole.head
  unfold Numeral.text
  rw [isWhole]
  cases n.negative with
  | true => exact ⟨'-', _, rfl, Or.inl rfl⟩
  | false => exact ⟨d, _, rfl, Or.inr isDigit⟩

/-- A value starts with one of a few characters. -/
theorem Derives.head (derives : Derives (.value t) s r) :
    ∃ c rest, s = c :: rest ∧ valueStart c = true := by
  cases derives with
  | nullWord => exact ⟨'n', _, rfl, by decide⟩
  | trueWord => exact ⟨'t', _, rfl, by decide⟩
  | falseWord => exact ⟨'f', _, rfl, by decide⟩
  | num grammatical =>
      obtain ⟨c, rest, text, start⟩ := Numeral.head grammatical
      refine ⟨c, rest ++ r, by rw [text, List.cons_append], ?_⟩
      rcases start with rfl | isDigit
      · decide
      · simp [valueStart, isDigit]
  | str inside => exact ⟨'"', _, rfl, by decide⟩
  | emptyArr space => exact ⟨'[', _, rfl, by decide⟩
  | arr items => exact ⟨'[', _, rfl, by decide⟩
  | emptyObj space => exact ⟨'{', _, rfl, by decide⟩
  | obj members => exact ⟨'{', _, rfl, by decide⟩

theorem valueStart_space {c : Char} (start : valueStart c = true) : jsonSpace c = false := by
  cases space : jsonSpace c with
  | false => rfl
  | true =>
      simp only [jsonSpace, Bool.or_eq_true, beq_iff_eq] at space
      rcases space with ((rfl | rfl) | rfl) | rfl
      all_goals exact absurd start (by decide)

/-- A phrase has characters. -/
theorem Derives.length (derives : Derives p s r) : r.length < s.length := by
  induction derives with
  | nullWord | trueWord | falseWord =>
      rw [List.length_append]
      exact Nat.lt_add_of_pos_left (by decide)
  | num grammatical =>
      obtain ⟨c, rest, text, -⟩ := Numeral.head grammatical
      rw [text, List.cons_append, List.length_cons, List.length_append]
      omega
  | str inside =>
      have := inside.length
      rw [List.length_cons]
      omega
  | emptyArr space =>
      have := space.length
      rw [List.length_cons] at this ⊢
      omega
  | arr _ ih =>
      rw [List.length_cons]
      omega
  | emptyObj space =>
      have := space.length
      rw [List.length_cons] at this ⊢
      omega
  | obj _ ih =>
      rw [List.length_cons]
      omega
  | lastItem before _ after ih =>
      have first := before.length
      have last := after.length
      rw [List.length_cons] at last
      omega
  | item before _ after _ ih ih' =>
      have first := before.length
      have last := after.length
      rw [List.length_cons] at last
      omega
  | lastMember before name colon between _ after ih =>
      have first := before.length
      have second := name.length
      have third := colon.length
      have fourth := between.length
      have last := after.length
      rw [List.length_cons] at first third last
      omega
  | member before name colon between _ after _ ih ih' =>
      have first := before.length
      have second := name.length
      have third := colon.length
      have fourth := between.length
      have last := after.length
      rw [List.length_cons] at first third last
      omega

theorem readPrimitive_num {n : Numeral} (grammatical : n.Grammatical) (ends : Ends r) :
    readPrimitive (n.text ++ r) = some (.num n, r) := by
  obtain ⟨c, rest, text, start⟩ := Numeral.head grammatical
  have other : c ≠ 't' ∧ c ≠ 'f' ∧ c ≠ 'n' := by
    refine ⟨?_, ?_, ?_⟩
    all_goals
      rintro rfl
      rcases start with minus | isDigit
      · exact absurd minus (by decide)
      · exact absurd isDigit (by decide)
  unfold readPrimitive
  rw [readNumeral_text grammatical ends, text, List.cons_append]
  have notTrue : "true".toList.isPrefixOf (c :: (rest ++ r)) = false := by
    simp [List.isPrefixOf, Ne.symm other.1]
  have notFalse : "false".toList.isPrefixOf (c :: (rest ++ r)) = false := by
    simp [List.isPrefixOf, Ne.symm other.2.1]
  have notNull : "null".toList.isPrefixOf (c :: (rest ++ r)) = false := by
    simp [List.isPrefixOf, Ne.symm other.2.2]
  rw [notTrue, notFalse, notNull]
  rfl

theorem readValue_primitive {c : Char} (bracket : c ≠ '[') (brace : c ≠ '{') (mark : c ≠ '"') :
    readValue (fuel + 1) (c :: s) = readPrimitive (c :: s) := by
  rw [readValue]
  · rintro rest same
    exact bracket (List.cons.inj same).1
  · rintro rest same
    exact brace (List.cons.inj same).1
  · rintro rest same
    exact mark (List.cons.inj same).1

theorem skip_skip (s : List Char) : skip jsonSpace (skip jsonSpace s) = skip jsonSpace s :=
  List.dropWhile_idempotent _ _

theorem readItems_skip : readItems fuel (skip jsonSpace s) = readItems fuel s := by
  cases fuel with
  | zero => rfl
  | succ fuel => rw [readItems, readItems, skip_skip]

theorem readMembers_skip : readMembers fuel (skip jsonSpace s) = readMembers fuel s := by
  cases fuel with
  | zero => rfl
  | succ fuel => rw [readMembers, readMembers, skip_skip]

theorem readValue_arr (some : (skip jsonSpace s).head? ≠ some ']') :
    readValue (fuel + 1) ('[' :: s) = (readItems fuel s).map fun (ts, r) => (.arr ts, r) := by
  rw [readValue]
  split
  · rename_i same
    rw [same] at some
    exact absurd rfl some
  · rw [readItems_skip]
    cases readItems fuel s <;> rfl

theorem readValue_obj (some : (skip jsonSpace s).head? ≠ some '}') :
    readValue (fuel + 1) ('{' :: s) = (readMembers fuel s).map fun (ms, r) => (.obj ms, r) := by
  rw [readValue]
  split
  · rename_i same
    rw [same] at some
    exact absurd rfl some
  · rw [readMembers_skip]
    cases readMembers fuel s <;> rfl

/-- Space before a delimiter is skipped to it. -/
theorem skip_to {c : Char} (space : Space s (c :: s')) (not : jsonSpace c = false) :
    skip jsonSpace s = c :: s' :=
  skip_eq space (fun _ is => is) fun d is => by
    obtain rfl : c = d := by simpa using is
    exact not

theorem skip_value (space : Space s s') (derives : Derives (.value t) s' r) :
    skip jsonSpace s = s' := by
  obtain ⟨c, rest, rfl, start⟩ := derives.head
  exact skip_to space (valueStart_space start)

/-- Items start with a value. -/
theorem Derives.items_head (derives : Derives (.items ts) s r) :
    (skip jsonSpace s).head? ≠ some ']' := by
  have value : ∀ {t : Tree} {s₁ s₂ : List Char}, Space s s₁ → Derives (.value t) s₁ s₂ →
      (skip jsonSpace s).head? ≠ some ']' := by
    intro t s₁ s₂ before item
    rw [skip_value before item]
    obtain ⟨c, rest, rfl, start⟩ := item.head
    intro same
    obtain rfl : c = ']' := by simpa using same
    exact absurd start (by decide)
  cases derives with
  | lastItem before item after => exact value before item
  | item before item after more => exact value before item

theorem Derives.members_head {ms : List (Str × Tree)} (derives : Derives (.members ms) s r) :
    (skip jsonSpace s).head? ≠ some '}' := by
  have name : ∀ {s₁ : List Char}, Space s ('"' :: s₁) → (skip jsonSpace s).head? ≠ some '}' := by
    intro s₁ before
    rw [skip_to before (by decide)]
    exact fun same => absurd (Option.some.inj same) (by decide)
  cases derives with
  | lastMember before _ _ _ _ _ => exact name before
  | member before _ _ _ _ _ _ => exact name before

theorem Ends.delimiter {c : Char} (space : Space r (c :: s)) (isDelimiter : c = ',' ∨ c = ']' ∨ c = '}') :
    Ends r := by
  refine .of_space space fun d is => ?_
  obtain rfl : c = d := by simpa using is
  rcases isDelimiter with rfl | rfl | rfl
  all_goals decide

/-- With fuel for the characters of the phrase, the reader finds it. -/
def Completes : Phrase → List Char → List Char → Prop
  | .value t, s, r => ∀ fuel, s.length ≤ fuel + r.length → Ends r → readValue fuel s = some (t, r)
  | .items ts, s, r => ∀ fuel, s.length ≤ fuel + r.length → readItems fuel s = some (ts, r)
  | .members ms, s, r => ∀ fuel, s.length ≤ fuel + r.length → readMembers fuel s = some (ms, r)

theorem Derives.completes (derives : Derives p s r) : Completes p s r := by
  have some : ∀ {s r : List Char} {fuel : Nat}, r.length < s.length → s.length ≤ fuel + r.length →
      ∃ more, fuel = more + 1 := fun {s r fuel} less enough => ⟨fuel - 1, by omega⟩
  induction derives with
  | nullWord =>
      intro fuel enough _
      obtain ⟨fuel, rfl⟩ := some Derives.nullWord.length enough
      rfl
  | trueWord =>
      intro fuel enough _
      obtain ⟨fuel, rfl⟩ := some Derives.trueWord.length enough
      rfl
  | falseWord =>
      intro fuel enough _
      obtain ⟨fuel, rfl⟩ := some Derives.falseWord.length enough
      rfl
  | num grammatical =>
      intro fuel enough ends
      obtain ⟨fuel, rfl⟩ := some (Derives.num grammatical).length enough
      have read := readPrimitive_num grammatical ends
      obtain ⟨c, rest, text, start⟩ := Numeral.head grammatical
      rw [text, List.cons_append] at read ⊢
      rw [readValue_primitive, read]
      all_goals
        rintro rfl
        rcases start with minus | isDigit
        · exact absurd minus (by decide)
        · exact absurd isDigit (by decide)
  | str inside =>
      intro fuel enough _
      obtain ⟨fuel, rfl⟩ := some (Derives.str inside).length enough
      rw [readValue, readInside_text inside]
      rfl
  | emptyArr space =>
      intro fuel enough _
      obtain ⟨fuel, rfl⟩ := some (Derives.emptyArr space).length enough
      rw [readValue, skip_to space (by decide)]
      rfl
  | arr items ih =>
      intro fuel enough _
      obtain ⟨fuel, rfl⟩ := some (Derives.arr items).length enough
      rw [List.length_cons] at enough
      rw [readValue_arr items.items_head, ih fuel (by omega)]
      rfl
  | emptyObj space =>
      intro fuel enough _
      obtain ⟨fuel, rfl⟩ := some (Derives.emptyObj space).length enough
      rw [readValue, skip_to space (by decide)]
      rfl
  | obj members ih =>
      intro fuel enough _
      obtain ⟨fuel, rfl⟩ := some (Derives.obj members).length enough
      rw [List.length_cons] at enough
      rw [readValue_obj members.members_head, ih fuel (by omega)]
      rfl
  | lastItem before item after ih =>
      intro fuel enough
      obtain ⟨fuel, rfl⟩ := some (Derives.lastItem before item after).length enough
      have first := before.length
      have last := after.length
      rw [List.length_cons] at last
      have read := ih fuel (by omega) (.delimiter after (Or.inr (Or.inl rfl)))
      rw [readItems, skip_value before item, read, Option.bind_eq_bind, Option.bind_some]
      dsimp only
      rw [skip_to after (by decide)]
      rfl
  | item before item after more ih ih' =>
      intro fuel enough
      obtain ⟨fuel, rfl⟩ := some (Derives.item before item after more).length enough
      have first := before.length
      have last := after.length
      have used := item.length
      have left := more.length
      rw [List.length_cons] at last
      have read := ih fuel (by omega) (.delimiter after (Or.inl rfl))
      rw [readItems, skip_value before item, read, Option.bind_eq_bind, Option.bind_some]
      dsimp only
      rw [skip_to after (by decide)]
      change Option.bind _ _ = _
      rw [ih' fuel (by omega)]
      rfl
  | lastMember before name colon between value after ih =>
      intro fuel enough
      obtain ⟨fuel, rfl⟩ :=
        some (Derives.lastMember before name colon between value after).length enough
      have first := before.length
      have second := name.length
      have third := colon.length
      have fourth := between.length
      have last := after.length
      rw [List.length_cons] at first third last
      have read := ih fuel (by omega) (.delimiter after (Or.inr (Or.inr rfl)))
      rw [readMembers, skip_to before (by decide)]
      change Option.bind _ _ = _
      rw [readInside_text name, Option.bind_some]
      dsimp only
      rw [skip_to colon (by decide)]
      change Option.bind _ _ = _
      rw [skip_value between value, read, Option.bind_some]
      dsimp only
      rw [skip_to after (by decide)]
      rfl
  | member before name colon between value after more ih ih' =>
      intro fuel enough
      obtain ⟨fuel, rfl⟩ :=
        some (Derives.member before name colon between value after more).length enough
      have first := before.length
      have second := name.length
      have third := colon.length
      have fourth := between.length
      have used := value.length
      have left := more.length
      have last := after.length
      rw [List.length_cons] at first third last
      have read := ih fuel (by omega) (.delimiter after (Or.inl rfl))
      rw [readMembers, skip_to before (by decide)]
      change Option.bind _ _ = _
      rw [readInside_text name, Option.bind_some]
      dsimp only
      rw [skip_to colon (by decide)]
      change Option.bind _ _ = _
      rw [skip_value between value, read, Option.bind_some]
      dsimp only
      rw [skip_to after (by decide)]
      change Option.bind _ _ = _
      rw [ih' fuel (by omega)]
      rfl

/-! ## What is read is a text -/

theorem readPrimitive_sound (run : readPrimitive s = some (t, r)) : Derives (.value t) s r := by
  have word : ∀ w : List Char, w.isPrefixOf s = true → s = w ++ s.drop w.length := by
    intro w isPrefix
    obtain ⟨rest, rfl⟩ := List.isPrefixOf_iff_prefix.mp isPrefix
    rw [List.drop_left]
  unfold readPrimitive at run
  split_ifs at run with isTrue isFalse isNull
  · obtain ⟨rfl, rfl⟩ := Prod.mk.inj (Option.some.inj run)
    have is := word _ isTrue
    rw [is]
    exact .trueWord
  · obtain ⟨rfl, rfl⟩ := Prod.mk.inj (Option.some.inj run)
    have is := word _ isFalse
    rw [is]
    exact .falseWord
  · obtain ⟨rfl, rfl⟩ := Prod.mk.inj (Option.some.inj run)
    have is := word _ isNull
    rw [is]
    exact .nullWord
  · obtain ⟨⟨n, rest⟩, read, is⟩ := Option.map_eq_some_iff.mp run
    obtain ⟨rfl, rfl⟩ := Prod.mk.inj is
    obtain ⟨grammatical, rfl⟩ := readNumeral_sound read
    exact .num grammatical

/-- The text behind skipped space. -/
theorem space_of_skip (is : skip jsonSpace s = s') : Space s s' := is ▸ skips_skip

/-- What the reader finds is there, whatever fuel it has. -/
structure Sound (fuel : Nat) : Prop where
  value : ∀ s t r, readValue fuel s = some (t, r) → Derives (.value t) s r
  items : ∀ s ts r, readItems fuel s = some (ts, r) → Derives (.items ts) s r
  members : ∀ s ms r, readMembers fuel s = some (ms, r) → Derives (.members ms) s r

theorem Sound.nextValue (sound : Sound fuel) (run : readValue (fuel + 1) s = some (t, r)) :
    Derives (.value t) s r := by
  rw [readValue.eq_def] at run
  dsimp only at run
  split at run
  · split at run
    · rename_i empty
      obtain ⟨rfl, rfl⟩ := Prod.mk.inj (Option.some.inj run)
      exact .emptyArr (space_of_skip empty)
    · rw [readItems_skip] at run
      obtain ⟨⟨ts, rest⟩, read, is⟩ := Option.bind_eq_some_iff.mp run
      obtain ⟨rfl, rfl⟩ := Prod.mk.inj (Option.some.inj is)
      exact .arr (sound.items _ _ _ read)
  · split at run
    · rename_i empty
      obtain ⟨rfl, rfl⟩ := Prod.mk.inj (Option.some.inj run)
      exact .emptyObj (space_of_skip empty)
    · rw [readMembers_skip] at run
      obtain ⟨⟨ms, rest⟩, read, is⟩ := Option.bind_eq_some_iff.mp run
      obtain ⟨rfl, rfl⟩ := Prod.mk.inj (Option.some.inj is)
      exact .obj (sound.members _ _ _ read)
  · obtain ⟨⟨us, rest⟩, read, is⟩ := Option.bind_eq_some_iff.mp run
    obtain ⟨rfl, rfl⟩ := Prod.mk.inj (Option.some.inj is)
    exact .str (readInside_sound read)
  · exact readPrimitive_sound run

theorem Sound.nextItems (sound : Sound fuel) (run : readItems (fuel + 1) s = some (ts, r)) :
    Derives (.items ts) s r := by
  rw [readItems.eq_def] at run
  dsimp only at run
  obtain ⟨⟨t, rest⟩, read, run⟩ := Option.bind_eq_some_iff.mp run
  have item := sound.value _ _ _ read
  dsimp only at run
  split at run
  · rename_i close
    obtain ⟨rfl, rfl⟩ := Prod.mk.inj (Option.some.inj run)
    exact .lastItem skips_skip item (space_of_skip close)
  · rename_i comma
    obtain ⟨⟨more, last⟩, reads, is⟩ := Option.bind_eq_some_iff.mp run
    obtain ⟨rfl, rfl⟩ := Prod.mk.inj (Option.some.inj is)
    exact .item skips_skip item (space_of_skip comma) (sound.items _ _ _ reads)
  · cases run

theorem Sound.nextMembers (sound : Sound fuel) {ms : List (Str × Tree)}
    (run : readMembers (fuel + 1) s = some (ms, r)) : Derives (.members ms) s r := by
  rw [readMembers.eq_def] at run
  dsimp only at run
  split at run
  · rename_i mark
    obtain ⟨⟨us, rest⟩, name, run⟩ := Option.bind_eq_some_iff.mp run
    dsimp only at run
    split at run
    · rename_i colon
      obtain ⟨⟨t, rest'⟩, read, run⟩ := Option.bind_eq_some_iff.mp run
      have value := sound.value _ _ _ read
      dsimp only at run
      split at run
      · rename_i close
        obtain ⟨rfl, rfl⟩ := Prod.mk.inj (Option.some.inj run)
        exact .lastMember (space_of_skip mark) (readInside_sound name) (space_of_skip colon)
          skips_skip value (space_of_skip close)
      · rename_i comma
        obtain ⟨⟨more, last⟩, reads, is⟩ := Option.bind_eq_some_iff.mp run
        obtain ⟨rfl, rfl⟩ := Prod.mk.inj (Option.some.inj is)
        exact .member (space_of_skip mark) (readInside_sound name) (space_of_skip colon)
          skips_skip value (space_of_skip comma) (sound.members _ _ _ reads)
      · cases run
    · cases run
  · cases run

theorem sound (fuel : Nat) : Sound fuel := by
  induction fuel with
  | zero =>
      refine ⟨fun s t r run => ?_, fun s ts r run => ?_, fun s ms r run => ?_⟩
      · rw [readValue] at run
        cases run
      · rw [readItems] at run
        cases run
      · rw [readMembers] at run
        cases run
  | succ fuel ih =>
      exact ⟨fun _ _ _ => ih.nextValue, fun _ _ _ => ih.nextItems, fun _ _ _ => ih.nextMembers⟩

end Values

/-- **Reading is exact.**  The reader accepts the JSON texts, each with its tree. -/
theorem readText_iff {t : Tree} {text : List Char} : readText text = some t ↔ JsonText t text := by
  unfold readText JsonText
  constructor
  · intro run
    obtain ⟨⟨found, rest⟩, read, run⟩ := Option.bind_eq_some_iff.mp run
    obtain ⟨_, empty, is⟩ := Option.bind_eq_some_iff.mp run
    obtain rfl := Option.some.inj is
    have none : skip jsonSpace rest = [] := by
      by_contra some
      rw [guard, if_neg some] at empty
      cases empty
    exact ⟨_, rest, skips_skip, (sound _).value _ _ _ read, space_of_skip none⟩
  · rintro ⟨s, r, before, derives, after⟩
    have read := derives.completes (text.length + 1) (by
      have := before.length
      omega) (.of_space after nofun)
    have none : skip jsonSpace r = [] := skip_eq after (fun _ is => is) nofun
    rw [skip_value before derives, read, Option.bind_eq_bind, Option.bind_some]
    dsimp only
    rw [none]
    rfl

/-- A text has one tree. -/
theorem JsonText.unique {t t' : Tree} {text : List Char} (first : JsonText t text)
    (second : JsonText t' text) : t = t' := by
  have read := readText_iff.mpr first
  rw [readText_iff.mpr second] at read
  exact (Option.some.inj read).symm

theorem jsonParse_iff {v : Value} {text : List Char} :
    jsonParse text = some v ↔ ∃ t, JsonText t text ∧ t.value = v := by
  unfold jsonParse
  rw [Option.map_eq_some_iff]
  exact exists_congr fun t => and_congr_left fun _ => readText_iff

end Js
