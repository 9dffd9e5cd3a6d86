import Knowledger.Lib.JsonText
import Knowledger.Lib.Utf8

/-!
# Strict JSON

`JSON.parse` keeps the last member of a name and drops the others without a word, so the program
scans a text before it parses it: `parseStrictJson` the octets of the ledger, `parseJsonStrict`
the body of a request.  The two scanners are the same but for their messages.  `scans` runs a
scanner along a derivation of the grammar: behind a phrase the scanner stands where the grammar
does, unless the phrase nests too deep, or names a member twice, or names a forbidden one.
-/

namespace Knowledger.StrictJson

open Js

/-! ## The scanner -/

/-- What a parser throws: an `Error`, or what `JSON.parse` and `TextDecoder` throw.  `exhausted`
is no throw of the program; it marks a scan that ran out of fuel. -/
inductive Thrown
  | error (message : String)
  | syntaxError
  | typeError
  | exhausted
  deriving DecidableEq

/-- `/\s/` -/
def whitespace (c : Char) : Bool :=
  let n := c.toNat
  (9 ≤ n && n ≤ 13) || n == 0x20 || n == 0xa0 || n == 0x1680 || (0x2000 ≤ n && n ≤ 0x200a) ||
    n == 0x2028 || n == 0x2029 || n == 0x202f || n == 0x205f || n == 0x3000 || n == 0xfeff

structure Messages where
  invalid : String
  depth : String
  duplicate : String
  forbidden : String

/-- The characters up to the first quote that no backslash precedes, and those behind it. -/
def stringText : List Char → Option (List Char × List Char)
  | [] => none
  | ['\\'] => none
  | '\\' :: c :: s => (stringText s).map fun (text, r) => ('\\' :: c :: text, r)
  | c :: s =>
      if c = '"' then some ([c], s) else (stringText s).map fun (text, r) => (c :: text, r)

def scanString (m : Messages) : List Char → Except Thrown (Str × List Char)
  | '"' :: s =>
      match stringText s with
      | none => .error (.error m.invalid)
      | some (text, r) =>
          -- `JSON.parse` gives a string here, or throws: the text starts with a quote.
          match jsonParse ('"' :: text) with
          | some (.str key) => .ok (key, r)
          | _ => .error .syntaxError
  | _ => .error (.error m.invalid)

def forbiddenKeys : List Str := ["__proto__", "constructor", "prototype"]

mutual
def scanValue (m : Messages) : Nat → Nat → List Char → Except Thrown (List Char)
  | 0, _, _ => .error .exhausted
  | fuel + 1, depth, s =>
      if 64 < depth then .error (.error m.depth)
      else
        match skip whitespace s with
        | '{' :: rest =>
            match skip whitespace rest with
            | '}' :: r => .ok r
            | rest => scanMembers m fuel depth [] rest
        | '[' :: rest =>
            match skip whitespace rest with
            | ']' :: r => .ok r
            | rest => scanItems m fuel depth rest
        | '"' :: rest => (scanString m ('"' :: rest)).map Prod.snd
        | rest =>
            match readPrimitive rest with
            | some (_, r) => .ok r
            | none => .error (.error m.invalid)

/-- The loop over the members of an object, with the keys before them. -/
def scanMembers (m : Messages) : Nat → Nat → List Str → List Char → Except Thrown (List Char)
  | 0, _, _, _ => .error .exhausted
  | fuel + 1, depth, keys, s =>
      match scanString m (skip whitespace s) with
      | .error e => .error e
      | .ok (key, rest) =>
          if key ∈ keys then .error (.error m.duplicate)
          else if key ∈ forbiddenKeys then .error (.error m.forbidden)
          else
            match skip whitespace rest with
            | ':' :: rest =>
                match scanValue m fuel (depth + 1) rest with
                | .error e => .error e
                | .ok rest =>
                    match skip whitespace rest with
                    | '}' :: r => .ok r
                    | ',' :: rest => scanMembers m fuel depth (key :: keys) rest
                    | _ => .error (.error m.invalid)
            | _ => .error (.error m.invalid)

/-- The loop over the items of an array. -/
def scanItems (m : Messages) : Nat → Nat → List Char → Except Thrown (List Char)
  | 0, _, _ => .error .exhausted
  | fuel + 1, depth, s =>
      match scanValue m fuel (depth + 1) s with
      | .error e => .error e
      | .ok rest =>
          match skip whitespace rest with
          | ']' :: r => .ok r
          | ',' :: rest => scanItems m fuel depth rest
          | _ => .error (.error m.invalid)
end

/-- Two calls for a character are fuel enough. -/
def fuelFor (text : List Char) : Nat := 2 * text.length + 1

def parse (m : Messages) (text : List Char) : Except Thrown Value :=
  match scanValue m (fuelFor text) 0 text with
  | .error e => .error e
  | .ok rest =>
      if skip whitespace rest = [] then
        match jsonParse text with
        | some v => .ok v
        | none => .error .syntaxError
      else .error (.error m.invalid)

/-- `new TextDecoder("utf-8", { fatal: true }).decode(bytes)`: the octets are decoded or refused,
and a byte order mark at their start is dropped. -/
def decodeUtf8 (bytes : List UInt8) : Option (List Char) :=
  (ByteArray.mk bytes.toArray).utf8Decode?.map fun text =>
    match text.toList with
    | '\uFEFF' :: rest => rest
    | text => text

/-- The scanner of `parseStrictJson` has one message. -/
def strictMessages : Messages :=
  ⟨"invalid JSON command", "invalid JSON command", "invalid JSON command", "invalid JSON command"⟩

def parseStrictJson (bytes : List UInt8) : Except Thrown Value :=
  match decodeUtf8 bytes with
  | some text => parse strictMessages text
  | none => .error .typeError

def parseJsonStrict (source : List Char) : Except Thrown Value :=
  parse ⟨"Invalid JSON", "JSON depth limit exceeded", "Duplicate JSON key", "Forbidden JSON key"⟩
    source

/-! ## The strict texts -/

/-- Inside `depth` containers, no value is inside more than 64, and no object of the tree has two
members of one name or a member of a forbidden name. -/
structure StrictAt (depth : Nat) (t : Tree) : Prop where
  depth : ∀ n u, t.Holds n u → depth + n ≤ 64
  distinct : ∀ n members, t.Holds n (.obj members) → (members.map Prod.fst).Nodup
  permitted : ∀ n members, t.Holds n (.obj members) →
    ∀ name ∈ members.map Prod.fst, name ∉ forbiddenKeys

/-- **The strict texts** are those of the trees that satisfy this. -/
abbrev Strict (t : Tree) : Prop := StrictAt 0 t

section Strict

variable {depth : Nat} {t : Tree} {items : List Tree} {members : List (Str × Tree)}

/-- A tree without parts. -/
theorem strictAt_leaf (whole : ∀ n u, t.Holds n u → n = 0 ∧ u = t) (noObj : ∀ ms, t ≠ .obj ms) :
    StrictAt depth t ↔ depth ≤ 64 := by
  refine ⟨fun strict => strict.depth 0 t .self, fun within => ⟨?_, ?_, ?_⟩⟩
  · intro n u holds
    rw [(whole n u holds).1]
    exact within
  · intro n ms holds
    exact absurd (whole n _ holds).2.symm (noObj ms)
  · intro n ms holds
    exact absurd (whole n _ holds).2.symm (noObj ms)

theorem strictAt_arr :
    StrictAt depth (.arr items) ↔ depth ≤ 64 ∧ ∀ t ∈ items, StrictAt (depth + 1) t := by
  constructor
  · intro strict
    refine ⟨strict.depth 0 _ .self, fun t mem => ⟨fun n u holds => ?_, fun n ms holds => ?_,
      fun n ms holds => ?_⟩⟩
    · have := strict.depth (n + 1) u (.item mem holds)
      omega
    · exact strict.distinct (n + 1) ms (.item mem holds)
    · exact strict.permitted (n + 1) ms (.item mem holds)
  · rintro ⟨within, each⟩
    refine ⟨fun n u holds => ?_, fun n ms holds => ?_, fun n ms holds => ?_⟩
    · cases holds with
      | self => exact within
      | item mem below =>
          have := (each _ mem).depth _ _ below
          omega
    · cases holds with
      | item mem below => exact (each _ mem).distinct _ _ below
    · cases holds with
      | item mem below => exact (each _ mem).permitted _ _ below

/-- The members of an object inside `depth` containers, behind members with the given keys. -/
structure MembersAt (depth : Nat) (keys : List Str) (members : List (Str × Tree)) : Prop where
  distinct : (members.map Prod.fst).Nodup
  fresh : ∀ f ∈ members, f.1 ∉ keys
  permitted : ∀ f ∈ members, f.1 ∉ forbiddenKeys
  values : ∀ f ∈ members, StrictAt (depth + 1) f.2

theorem strictAt_obj :
    StrictAt depth (.obj members) ↔ depth ≤ 64 ∧ MembersAt depth [] members := by
  constructor
  · intro strict
    refine ⟨strict.depth 0 _ .self, strict.distinct 0 _ .self, fun _ _ => List.not_mem_nil,
      fun f mem => strict.permitted 0 _ .self _ (List.mem_map_of_mem mem), fun f mem =>
        ⟨fun n u holds => ?_, fun n ms holds => ?_, fun n ms holds => ?_⟩⟩
    · have := strict.depth (n + 1) u (.member mem holds)
      omega
    · exact strict.distinct (n + 1) ms (.member mem holds)
    · exact strict.permitted (n + 1) ms (.member mem holds)
  · rintro ⟨within, distinct, -, permitted, values⟩
    refine ⟨fun n u holds => ?_, fun n ms holds => ?_, fun n ms holds => ?_⟩
    · cases holds with
      | self => exact within
      | member mem below =>
          have := (values _ mem).depth _ _ below
          omega
    · cases holds with
      | self => exact distinct
      | member mem below => exact (values _ mem).distinct _ _ below
    · cases holds with
      | self =>
          intro name mem
          obtain ⟨f, inside, rfl⟩ := List.mem_map.mp mem
          exact permitted f inside
      | member mem below => exact (values _ mem).permitted _ _ below

theorem membersAt_cons {keys : List Str} {key : Str} :
    MembersAt depth keys ((key, t) :: members) ↔
      key ∉ keys ∧ key ∉ forbiddenKeys ∧ StrictAt (depth + 1) t ∧
        MembersAt depth (key :: keys) members := by
  constructor
  · rintro ⟨distinct, fresh, permitted, values⟩
    obtain ⟨first, rest⟩ := List.nodup_cons.mp distinct
    refine ⟨fresh _ List.mem_cons_self, permitted _ List.mem_cons_self,
      values _ List.mem_cons_self, rest, fun f mem => ?_,
      fun f mem => permitted f (List.mem_cons_of_mem _ mem),
      fun f mem => values f (List.mem_cons_of_mem _ mem)⟩
    rw [List.mem_cons, not_or]
    refine ⟨fun same => first ?_, fresh f (List.mem_cons_of_mem _ mem)⟩
    exact List.mem_map.mpr ⟨f, mem, same⟩
  · rintro ⟨fresh, permitted, value, rest⟩
    refine ⟨List.nodup_cons.mpr ⟨fun mem => ?_, rest.distinct⟩, ?_, ?_, ?_⟩
    · obtain ⟨f, mem, same⟩ := List.mem_map.mp mem
      exact rest.fresh f mem (same ▸ List.mem_cons_self)
    · intro f mem
      rcases List.mem_cons.mp mem with rfl | mem
      · exact fresh
      · exact fun old => rest.fresh f mem (List.mem_cons_of_mem _ old)
    · intro f mem
      rcases List.mem_cons.mp mem with rfl | mem
      · exact permitted
      · exact rest.permitted f mem
    · intro f mem
      rcases List.mem_cons.mp mem with rfl | mem
      · exact value
      · exact rest.values f mem

theorem membersAt_nil {keys : List Str} : MembersAt depth keys [] :=
  ⟨List.nodup_nil, List.forall_mem_nil _, List.forall_mem_nil _, List.forall_mem_nil _⟩

end Strict

/-! ## The scanner reads what the grammar reads -/

theorem whitespace_of_jsonSpace {c : Char} (space : jsonSpace c = true) : whitespace c = true := by
  simp only [jsonSpace, Bool.or_eq_true, beq_iff_eq] at space
  rcases space with ((rfl | rfl) | rfl) | rfl
  all_goals decide

theorem valueStart_whitespace {c : Char} (start : valueStart c = true) : whitespace c = false := by
  simp only [valueStart, Bool.or_eq_true, beq_iff_eq] at start
  rcases start with ((((((rfl | rfl) | rfl) | rfl) | isDigit) | rfl) | rfl) | rfl
  case inl.inl.inl.inr =>
    have bounds : 48 ≤ c.toNat ∧ c.toNat ≤ 57 := by
      simpa [digit, Char.isDigit, UInt32.le_iff_toNat_le] using isDigit
    unfold whitespace
    simp only [Bool.or_eq_false_iff, Bool.and_eq_false_iff, decide_eq_false_iff_not,
      beq_eq_false_iff_ne]
    omega
  all_goals decide

section Scanning

variable {m : Messages} {s s' r : List Char}

/-- Space before a delimiter is skipped to it. -/
theorem skip_delimiter {c : Char} (space : Space s (c :: s')) (not : whitespace c = false) :
    skip whitespace s = c :: s' :=
  skip_eq space (fun _ => whitespace_of_jsonSpace) fun d is => by
    obtain rfl : c = d := by simpa using is
    exact not

theorem skip_start {t : Tree} (space : Space s s') (derives : Derives (.value t) s' r) :
    skip whitespace s = s' := by
  obtain ⟨c, rest, rfl, start⟩ := derives.head
  exact skip_delimiter space (valueStart_whitespace start)

theorem hexValue_plain {c : Char} {n : Nat} (hex : hexValue c = some n) : c ≠ '\\' ∧ c ≠ '"' := by
  refine ⟨?_, ?_⟩
  all_goals
    rintro rfl
    revert hex
    decide +revert

theorem stringText_plain {c : Char} (backslash : c ≠ '\\') (quote : c ≠ '"') :
    stringText (c :: s) = (stringText s).map fun (text, r) => (c :: text, r) := by
  rw [stringText.eq_def]
  split
  · rename_i same
    cases same
  · rename_i same
    exact absurd (List.cons.inj same).1 backslash
  · rename_i same
    exact absurd (List.cons.inj same).1 backslash
  · rename_i same
    obtain ⟨rfl, rfl⟩ := List.cons.inj same
    rw [if_neg quote]

/-- The scanner ends a string where the grammar does. -/
theorem stringText_inside {us : List UInt16} (inside : Inside us s r) :
    ∃ text, s = text ++ r ∧ Inside us text [] ∧ stringText s = some (text, r) := by
  induction inside with
  | close => exact ⟨['"'], rfl, .close, rfl⟩
  | @plain c us s r isPlain rest ih =>
      obtain ⟨text, rfl, inside, scan⟩ := ih
      have notBackslash : c ≠ '\\' := by
        rintro rfl
        exact absurd isPlain (by decide)
      have notQuote : c ≠ '"' := by
        rintro rfl
        exact absurd isPlain (by decide)
      refine ⟨c :: text, rfl, .plain isPlain inside, ?_⟩
      rw [stringText_plain notBackslash notQuote, scan]
      rfl
  | @short c u us s r escape rest ih =>
      obtain ⟨text, rfl, inside, scan⟩ := ih
      refine ⟨'\\' :: c :: text, rfl, .short escape inside, ?_⟩
      rw [stringText, scan]
      rfl
  | @hex a b c d u us s r unit rest ih =>
      obtain ⟨text, rfl, inside, scan⟩ := ih
      refine ⟨'\\' :: 'u' :: a :: b :: c :: d :: text, rfl, .hex unit inside, ?_⟩
      simp only [hexUnit, Option.bind_eq_bind, Option.bind_eq_some_iff] at unit
      obtain ⟨_, hexA, _, hexB, _, hexC, _, hexD, _⟩ := unit
      rw [stringText, stringText_plain (hexValue_plain hexA).1 (hexValue_plain hexA).2,
        stringText_plain (hexValue_plain hexB).1 (hexValue_plain hexB).2,
        stringText_plain (hexValue_plain hexC).1 (hexValue_plain hexC).2,
        stringText_plain (hexValue_plain hexD).1 (hexValue_plain hexD).2, scan]
      rfl

theorem scanString_inside {us : List UInt16} (inside : Inside us s r) :
    scanString m ('"' :: s) = .ok (.ofUnits us, r) := by
  obtain ⟨text, -, inside, scan⟩ := stringText_inside inside
  have parsed : jsonParse ('"' :: text) = some (.str (.ofUnits us)) :=
    jsonParse_iff.mpr ⟨.str (.ofUnits us), ⟨_, _, ⟨[], rfl, List.forall_mem_nil _⟩, .str inside,
      ⟨[], rfl, List.forall_mem_nil _⟩⟩, by rw [Tree.value]⟩
  rw [scanString, scan]
  dsimp only
  rw [parsed]

/-- A scan of something is decided: it stands behind it where the condition holds, and throws
where it does not. -/
def Decided {α : Type} (condition : Prop) (result : Except Thrown α) (r : α) : Prop :=
  condition ∧ result = .ok r ∨ ¬ condition ∧ ∃ e, result = .error e

theorem Decided.ok {α : Type} {condition : Prop} {r : α} (holds : condition) :
    Decided condition (.ok r) r :=
  .inl ⟨holds, rfl⟩

theorem Decided.error {α : Type} {condition : Prop} {r : α} {e : Thrown} (fails : ¬ condition) :
    Decided condition (.error e) r :=
  .inr ⟨fails, e, rfl⟩

theorem Decided.congr {α : Type} {condition other : Prop} {result : Except Thrown α} {r : α}
    (same : condition ↔ other) (decided : Decided condition result r) : Decided other result r := by
  rcases decided with ⟨holds, is⟩ | ⟨fails, is⟩
  · exact .inl ⟨same.mp holds, is⟩
  · exact .inr ⟨fun holds => fails (same.mpr holds), is⟩

theorem scanValue_skip {fuel depth : Nat} :
    scanValue m fuel depth (skip whitespace s) = scanValue m fuel depth s := by
  cases fuel with
  | zero => rfl
  | succ fuel => rw [scanValue, scanValue, skip, skip, List.dropWhile_idempotent]

theorem scanItems_skip {fuel depth : Nat} :
    scanItems m fuel depth (skip whitespace s) = scanItems m fuel depth s := by
  cases fuel with
  | zero => rfl
  | succ fuel => rw [scanItems, scanItems, scanValue_skip]

theorem scanMembers_skip {fuel depth : Nat} {keys : List Str} :
    scanMembers m fuel depth keys (skip whitespace s) = scanMembers m fuel depth keys s := by
  cases fuel with
  | zero => rfl
  | succ fuel => rw [scanMembers, scanMembers, skip, skip, List.dropWhile_idempotent]

section Value

variable {fuel depth : Nat} (within : depth ≤ 64)
include within

theorem scanValue_arr (start : skip whitespace s = '[' :: s')
    (some : (skip whitespace s').head? ≠ some ']') :
    scanValue m (fuel + 1) depth s = scanItems m fuel depth s' := by
  rw [scanValue, if_neg (by omega), start]
  change (match skip whitespace s' with
    | ']' :: r => Except.ok r
    | rest => scanItems m fuel depth rest) = _
  split
  · rename_i same
    rw [same] at some
    exact absurd rfl some
  · rw [scanItems_skip]

theorem scanValue_obj (start : skip whitespace s = '{' :: s')
    (some : (skip whitespace s').head? ≠ some '}') :
    scanValue m (fuel + 1) depth s = scanMembers m fuel depth [] s' := by
  rw [scanValue, if_neg (by omega), start]
  change (match skip whitespace s' with
    | '}' :: r => Except.ok r
    | rest => scanMembers m fuel depth [] rest) = _
  split
  · rename_i same
    rw [same] at some
    exact absurd rfl some
  · rw [scanMembers_skip]

theorem scanValue_emptyArr (start : skip whitespace s = '[' :: s')
    (close : skip whitespace s' = ']' :: r) : scanValue m (fuel + 1) depth s = .ok r := by
  rw [scanValue, if_neg (by omega), start]
  change (match skip whitespace s' with
    | ']' :: r => Except.ok r
    | rest => scanItems m fuel depth rest) = _
  rw [close]
  rfl

theorem scanValue_emptyObj (start : skip whitespace s = '{' :: s')
    (close : skip whitespace s' = '}' :: r) : scanValue m (fuel + 1) depth s = .ok r := by
  rw [scanValue, if_neg (by omega), start]
  change (match skip whitespace s' with
    | '}' :: r => Except.ok r
    | rest => scanMembers m fuel depth [] rest) = _
  rw [close]
  rfl

theorem scanValue_str {us : List UInt16} (start : skip whitespace s = '"' :: s')
    (inside : Inside us s' r) : scanValue m (fuel + 1) depth s = .ok r := by
  rw [scanValue, if_neg (by omega), start]
  change Except.map Prod.snd (scanString m ('"' :: s')) = _
  rw [scanString_inside inside]
  rfl

theorem scanValue_primitive {c : Char} {t : Tree} (start : skip whitespace s = c :: s')
    (bracket : c ≠ '[') (brace : c ≠ '{') (mark : c ≠ '"')
    (reads : readPrimitive (c :: s') = some (t, r)) :
    scanValue m (fuel + 1) depth s = .ok r := by
  rw [scanValue, if_neg (by omega), start]
  split
  · exact absurd (List.cons.inj ‹_›).1 brace
  · exact absurd (List.cons.inj ‹_›).1 bracket
  · exact absurd (List.cons.inj ‹_›).1 mark
  · rw [reads]

end Value

/-- Items start with a value. -/
theorem items_start {ts : List Tree} (derives : Derives (.items ts) s r) :
    (skip whitespace s).head? ≠ some ']' := by
  have value : ∀ {t : Tree} {s₁ s₂ : List Char}, Space s s₁ → Derives (.value t) s₁ s₂ →
      (skip whitespace s).head? ≠ some ']' := by
    intro t s₁ s₂ before item
    rw [skip_start before item]
    obtain ⟨c, rest, rfl, start⟩ := item.head
    intro same
    obtain rfl : c = ']' := by simpa using same
    exact absurd start (by decide)
  cases derives with
  | lastItem before item after => exact value before item
  | item before item after more => exact value before item

theorem members_start {ms : List (Str × Tree)} (derives : Derives (.members ms) s r) :
    (skip whitespace s).head? ≠ some '}' := by
  have name : ∀ {s₁ : List Char}, Space s ('"' :: s₁) → (skip whitespace s).head? ≠ some '}' := by
    intro s₁ before
    rw [skip_delimiter before (by decide)]
    exact fun same => absurd (Option.some.inj same) (by decide)
  cases derives with
  | lastMember before _ _ _ _ _ => exact name before
  | member before _ _ _ _ _ _ => exact name before

/-- A value that is nested too deep is refused before it is read. -/
theorem decided_within {fuel depth : Nat} {t : Tree} {inner : Prop}
    (strict : StrictAt depth t ↔ depth ≤ 64 ∧ inner)
    (scan : depth ≤ 64 → Decided inner (scanValue m (fuel + 1) depth s) r) :
    Decided (StrictAt depth t) (scanValue m (fuel + 1) depth s) r := by
  by_cases within : depth ≤ 64
  · refine (scan within).congr ?_
    rw [strict]
    exact (and_iff_right within).symm
  · rw [scanValue, if_pos (by omega)]
    exact .error fun holds => within (strict.mp holds).1

theorem decided_leaf {fuel depth : Nat} {t : Tree}
    (whole : ∀ n u, t.Holds n u → n = 0 ∧ u = t) (noObj : ∀ ms, t ≠ .obj ms)
    (scan : depth ≤ 64 → scanValue m (fuel + 1) depth s = .ok r) :
    Decided (StrictAt depth t) (scanValue m (fuel + 1) depth s) r := by
  have strict : StrictAt depth t ↔ depth ≤ 64 ∧ True := by
    rw [strictAt_leaf whole noObj, and_true]
  refine decided_within strict fun within => ?_
  rw [scan within]
  exact .ok trivial

/-- A member whose name is repeated or forbidden is refused before its value is read. -/
theorem decided_member {fuel depth : Nat} {keys : List Str} {us : List UInt16} {t : Tree}
    {s₁ s₂ s₃ s₄ : List Char} {others : Prop} (before : Space s ('"' :: s₁))
    (name : Inside us s₁ s₂) (colon : Space s₂ (':' :: s₃))
    (value : Decided (StrictAt (depth + 1) t) (scanValue m fuel (depth + 1) s₃) s₄)
    (more : Decided others (match skip whitespace s₄ with
      | '}' :: r => .ok r
      | ',' :: rest => scanMembers m fuel depth (.ofUnits us :: keys) rest
      | _ => .error (.error m.invalid)) r) :
    Decided (.ofUnits us ∉ keys ∧ .ofUnits us ∉ forbiddenKeys ∧ StrictAt (depth + 1) t ∧ others)
      (scanMembers m (fuel + 1) depth keys s) r := by
  rw [scanMembers, skip_delimiter before (by decide), scanString_inside name]
  dsimp only
  by_cases old : Str.ofUnits us ∈ keys
  · rw [if_pos old]
    exact .error fun holds => holds.1 old
  · rw [if_neg old]
    by_cases forbidden : Str.ofUnits us ∈ forbiddenKeys
    · rw [if_pos forbidden]
      exact .error fun holds => holds.2.1 forbidden
    · rw [if_neg forbidden, skip_delimiter colon (by decide)]
      change Decided _ (match scanValue m fuel (depth + 1) s₃ with
        | .error e => .error e
        | .ok rest => match skip whitespace rest with
          | '}' :: r => .ok r
          | ',' :: rest => scanMembers m fuel depth (.ofUnits us :: keys) rest
          | _ => .error (.error m.invalid)) r
      rcases value with ⟨strict, scan⟩ | ⟨loose, e, scan⟩
      · rw [scan]
        refine more.congr ⟨fun rest => ⟨old, forbidden, strict, rest⟩, fun holds => holds.2.2.2⟩
      · rw [scan]
        exact .error fun holds => loose holds.2.2.1

/-- What a scanner with fuel for the characters makes of the phrase. -/
def Scans (m : Messages) : Phrase → List Char → List Char → Prop
  | .value t, s', r => ∀ fuel depth s, skip whitespace s = s' → 2 * s'.length + 1 ≤ fuel → Ends r →
      Decided (StrictAt depth t) (scanValue m fuel depth s) r
  | .items ts, s, r => ∀ fuel depth, 2 * s.length + 2 ≤ fuel →
      Decided (∀ t ∈ ts, StrictAt (depth + 1) t) (scanItems m fuel depth s) r
  | .members ms, s, r => ∀ fuel depth keys, 2 * s.length + 2 ≤ fuel →
      Decided (MembersAt depth keys ms) (scanMembers m fuel depth keys s) r

theorem scans_word {t : Tree} {word : List Char} {c : Char} {rest : List Char}
    (is : word = c :: rest) (bracket : c ≠ '[') (brace : c ≠ '{') (mark : c ≠ '"')
    (reads : readPrimitive (word ++ r) = some (t, r))
    (whole : ∀ n u, t.Holds n u → n = 0 ∧ u = t) (noObj : ∀ ms, t ≠ .obj ms) {fuel depth : Nat}
    (skipped : skip whitespace s = word ++ r) (enough : 2 * (word ++ r).length + 1 ≤ fuel) :
    Decided (StrictAt depth t) (scanValue m fuel depth s) r := by
  obtain ⟨fuel, rfl⟩ : ∃ more, fuel = more + 1 := ⟨fuel - 1, by omega⟩
  rw [is, List.cons_append] at skipped reads
  exact decided_leaf whole noObj fun within =>
    scanValue_primitive within skipped bracket brace mark reads

/-- **A scanner stands where the grammar does**, or throws where the phrase is not strict. -/
theorem scans {p : Phrase} (derives : Derives p s r) : Scans m p s r := by
  induction derives with
  | nullWord =>
      intro fuel depth s skipped enough _
      exact scans_word rfl (by decide) (by decide) (by decide) rfl
        (fun n u holds => by cases holds; exact ⟨rfl, rfl⟩) (fun ms is => by cases is) skipped enough
  | trueWord =>
      intro fuel depth s skipped enough _
      exact scans_word rfl (by decide) (by decide) (by decide) rfl
        (fun n u holds => by cases holds; exact ⟨rfl, rfl⟩) (fun ms is => by cases is) skipped enough
  | falseWord =>
      intro fuel depth s skipped enough _
      exact scans_word rfl (by decide) (by decide) (by decide) rfl
        (fun n u holds => by cases holds; exact ⟨rfl, rfl⟩) (fun ms is => by cases is) skipped enough
  | num grammatical =>
      intro fuel depth s skipped enough ends
      obtain ⟨c, rest, text, start⟩ := Numeral.head grammatical
      refine scans_word text ?_ ?_ ?_ (readPrimitive_num grammatical ends)
        (fun n u holds => by cases holds; exact ⟨rfl, rfl⟩) (fun ms is => by cases is) skipped enough
      all_goals
        rintro rfl
        rcases start with minus | isDigit
        · exact absurd minus (by decide)
        · exact absurd isDigit (by decide)
  | str inside =>
      intro fuel depth s skipped enough _
      obtain ⟨fuel, rfl⟩ : ∃ more, fuel = more + 1 := ⟨fuel - 1, by omega⟩
      refine decided_leaf (fun n u holds => by cases holds; exact ⟨rfl, rfl⟩)
        (fun ms is => by cases is) fun within => scanValue_str within skipped inside
  | emptyArr space =>
      intro fuel depth s skipped enough _
      obtain ⟨fuel, rfl⟩ : ∃ more, fuel = more + 1 := ⟨fuel - 1, by omega⟩
      refine decided_within strictAt_arr fun within => ?_
      rw [scanValue_emptyArr within skipped (skip_delimiter space (by decide))]
      exact .ok (List.forall_mem_nil _)
  | arr items ih =>
      intro fuel depth s skipped enough _
      obtain ⟨fuel, rfl⟩ : ∃ more, fuel = more + 1 := ⟨fuel - 1, by omega⟩
      refine decided_within strictAt_arr fun within => ?_
      rw [scanValue_arr within skipped (items_start items)]
      rw [List.length_cons] at enough
      exact ih fuel depth (by omega)
  | emptyObj space =>
      intro fuel depth s skipped enough _
      obtain ⟨fuel, rfl⟩ : ∃ more, fuel = more + 1 := ⟨fuel - 1, by omega⟩
      refine decided_within strictAt_obj fun within => ?_
      rw [scanValue_emptyObj within skipped (skip_delimiter space (by decide))]
      exact .ok membersAt_nil
  | obj members ih =>
      intro fuel depth s skipped enough _
      obtain ⟨fuel, rfl⟩ : ∃ more, fuel = more + 1 := ⟨fuel - 1, by omega⟩
      refine decided_within strictAt_obj fun within => ?_
      rw [scanValue_obj within skipped (members_start members)]
      rw [List.length_cons] at enough
      exact ih fuel depth [] (by omega)
  | lastItem before item after ih =>
      intro fuel depth enough
      obtain ⟨fuel, rfl⟩ : ∃ more, fuel = more + 1 := ⟨fuel - 1, by omega⟩
      have first := before.length
      rcases ih fuel (depth + 1) _ (skip_start before item) (by omega)
        (.delimiter after (Or.inr (Or.inl rfl))) with ⟨strict, scan⟩ | ⟨loose, e, scan⟩
      · rw [scanItems, scan]
        dsimp only
        rw [skip_delimiter after (by decide)]
        exact .ok (List.forall_mem_singleton.mpr strict)
      · rw [scanItems, scan]
        exact .error fun all => loose (all _ List.mem_cons_self)
  | item before item after more ih ih' =>
      intro fuel depth enough
      obtain ⟨fuel, rfl⟩ : ∃ more, fuel = more + 1 := ⟨fuel - 1, by omega⟩
      have first := before.length
      have last := after.length
      have used := item.length
      rw [List.length_cons] at last
      rcases ih fuel (depth + 1) _ (skip_start before item) (by omega)
        (.delimiter after (Or.inl rfl)) with ⟨strict, scan⟩ | ⟨loose, e, scan⟩
      · rw [scanItems, scan]
        dsimp only
        rw [skip_delimiter after (by decide)]
        refine (ih' fuel depth (by omega)).congr ?_
        rw [List.forall_mem_cons]
        exact (and_iff_right strict).symm
      · rw [scanItems, scan]
        exact .error fun all => loose (all _ List.mem_cons_self)
  | lastMember before name colon between value after ih =>
      intro fuel depth keys enough
      obtain ⟨fuel, rfl⟩ : ∃ more, fuel = more + 1 := ⟨fuel - 1, by omega⟩
      have first := before.length
      have second := name.length
      have third := colon.length
      have fourth := between.length
      rw [List.length_cons] at first third
      refine Decided.congr membersAt_cons.symm (decided_member before name colon
        (ih fuel (depth + 1) _ (skip_start between value) (by omega)
          (.delimiter after (Or.inr (Or.inr rfl)))) ?_)
      rw [skip_delimiter after (by decide)]
      exact .ok membersAt_nil
  | member before name colon between value after more ih ih' =>
      intro fuel depth keys enough
      obtain ⟨fuel, rfl⟩ : ∃ more, fuel = more + 1 := ⟨fuel - 1, by omega⟩
      have first := before.length
      have second := name.length
      have third := colon.length
      have fourth := between.length
      have last := after.length
      have used := value.length
      rw [List.length_cons] at first third last
      refine Decided.congr membersAt_cons.symm (decided_member before name colon
        (ih fuel (depth + 1) _ (skip_start between value) (by omega)
          (.delimiter after (Or.inl rfl))) ?_)
      rw [skip_delimiter after (by decide)]
      exact ih' fuel depth _ (by omega)

/-! ## A scan never runs out of fuel -/

/-- The scan is over, and has passed a character if it did not throw. -/
def Passes (s : List Char) (result : Except Thrown (List Char)) : Prop :=
  result ≠ .error .exhausted ∧ ∀ r, result = .ok r → r.length < s.length

theorem Passes.error {message : String} : Passes s (.error (.error message)) := by
  refine ⟨fun same => ?_, fun r same => ?_⟩
  all_goals cases same

theorem Passes.ok (less : r.length < s.length) : Passes s (.ok r) := by
  refine ⟨fun same => ?_, fun r' same => ?_⟩
  · cases same
  · cases same
    exact less

theorem Passes.longer {result : Except Thrown (List Char)} (passes : Passes s' result)
    (shorter : s'.length ≤ s.length) : Passes s result :=
  ⟨passes.1, fun r is => (passes.2 r is).trans_le shorter⟩

theorem skip_le (s : List Char) : (skip whitespace s).length ≤ s.length :=
  (List.dropWhile_suffix _).length_le

theorem stringText_passes (text : List Char) (found : stringText s = some (text, r)) :
    r.length < s.length := by
  fun_induction stringText s generalizing text r with
  | case1 => cases found
  | case2 => cases found
  | case3 c s ih =>
      obtain ⟨⟨text', r'⟩, inner, is⟩ := Option.map_eq_some_iff.mp found
      obtain ⟨-, rfl⟩ := Prod.mk.inj is
      have := ih text' inner
      simp only [List.length_cons]
      omega
  | case4 s =>
      obtain ⟨-, rfl⟩ := Prod.mk.inj (Option.some.inj found)
      simp
  | case5 c s _ _ _ ih =>
      obtain ⟨⟨text', r'⟩, inner, is⟩ := Option.map_eq_some_iff.mp found
      obtain ⟨-, rfl⟩ := Prod.mk.inj is
      have := ih text' inner
      simp only [List.length_cons]
      omega

theorem scanString_passes :
    scanString m s ≠ .error .exhausted ∧
      ∀ key r, scanString m s = .ok (key, r) → r.length < s.length := by
  unfold scanString
  split
  · rename_i s
    split
    · refine ⟨fun same => ?_, fun key r same => ?_⟩
      all_goals cases same
    · rename_i text r found
      have less := stringText_passes text found
      split
      · refine ⟨fun same => ?_, fun key r same => ?_⟩
        · cases same
        · cases same
          rw [List.length_cons]
          omega
      · refine ⟨fun same => ?_, fun key r same => ?_⟩
        all_goals cases same
  · refine ⟨fun same => ?_, fun key r same => ?_⟩
    all_goals cases same

theorem readPrimitive_passes {t : Tree} (found : readPrimitive s = some (t, r)) :
    r.length < s.length :=
  (readPrimitive_sound found).length

/-- Behind a part that passes, the rest passes. -/
theorem Passes.then {result : Except Thrown (List Char)} {next : List Char → Except Thrown (List Char)}
    (first : Passes s result) (rest : ∀ r, r.length < s.length → Passes s (next r)) :
    Passes s (match result with
      | .error e => .error e
      | .ok r => next r) := by
  cases result with
  | error e => exact ⟨first.1, fun r same => by cases same⟩
  | ok r => exact rest r (first.2 r rfl)

/-- With fuel for the characters, no scan runs out of it. -/
structure Lasts (m : Messages) (fuel : Nat) : Prop where
  value : ∀ depth s, 2 * s.length + 1 ≤ fuel → Passes s (scanValue m fuel depth s)
  items : ∀ depth s, 2 * s.length + 2 ≤ fuel → Passes s (scanItems m fuel depth s)
  members : ∀ depth keys s, 2 * s.length + 2 ≤ fuel → Passes s (scanMembers m fuel depth keys s)

theorem Lasts.nextValue {fuel depth : Nat} (lasts : Lasts m fuel)
    (enough : 2 * s.length + 1 ≤ fuel + 1) : Passes s (scanValue m (fuel + 1) depth s) := by
  have skipped := skip_le s
  rw [scanValue]
  split_ifs
  · exact .error
  · split
    · rename_i rest found
      rw [found, List.length_cons] at skipped
      have inner := skip_le rest
      split
      · rename_i r close
        rw [close, List.length_cons] at inner
        exact .ok (by omega)
      · exact (lasts.members depth [] _ (by omega)).longer (by omega)
    · rename_i rest found
      rw [found, List.length_cons] at skipped
      have inner := skip_le rest
      split
      · rename_i r close
        rw [close, List.length_cons] at inner
        exact .ok (by omega)
      · exact (lasts.items depth _ (by omega)).longer (by omega)
    · rename_i rest found
      rw [found] at skipped
      obtain ⟨runs, passes⟩ := scanString_passes (m := m) (s := '"' :: rest)
      cases scanned : scanString m ('"' :: rest) with
      | error e =>
          refine ⟨fun same => runs ?_, fun r same => by cases same⟩
          rw [scanned]
          cases same
          rfl
      | ok read =>
          exact .ok ((passes read.1 read.2 scanned).trans_le skipped)
    · split
      · rename_i t r found
        exact .ok ((readPrimitive_passes found).trans_le skipped)
      · exact .error

theorem Lasts.nextItems {fuel depth : Nat} (lasts : Lasts m fuel)
    (enough : 2 * s.length + 2 ≤ fuel + 1) : Passes s (scanItems m (fuel + 1) depth s) := by
  rw [scanItems]
  refine (lasts.value (depth + 1) s (by omega)).then fun rest less => ?_
  have skipped := skip_le rest
  split
  · rename_i r close
    rw [close, List.length_cons] at skipped
    exact .ok (by omega)
  · rename_i rest' comma
    rw [comma, List.length_cons] at skipped
    exact (lasts.items depth rest' (by omega)).longer (by omega)
  · exact .error

theorem Lasts.nextMembers {fuel depth : Nat} {keys : List Str} (lasts : Lasts m fuel)
    (enough : 2 * s.length + 2 ≤ fuel + 1) : Passes s (scanMembers m (fuel + 1) depth keys s) := by
  have skipped := skip_le s
  rw [scanMembers]
  obtain ⟨runs, passes⟩ := scanString_passes (m := m) (s := skip whitespace s)
  split
  · rename_i e scanned
    refine ⟨fun same => runs ?_, fun r same => by cases same⟩
    rw [scanned]
    cases same
    rfl
  · rename_i key rest scanned
    have shorter := passes key rest scanned
    split_ifs
    · exact .error
    · exact .error
    · have inner := skip_le rest
      split
      · rename_i value colon
        rw [colon, List.length_cons] at inner
        refine Passes.longer (?_ : Passes value _) (by omega)
        refine (lasts.value (depth + 1) value (by omega)).then fun rest' less => ?_
        have skipped' := skip_le rest'
        split
        · rename_i r close
          rw [close, List.length_cons] at skipped'
          exact .ok (by omega)
        · rename_i more comma
          rw [comma, List.length_cons] at skipped'
          exact (lasts.members depth _ more (by omega)).longer (by omega)
        · exact .error
      · exact .error

theorem lasts (fuel : Nat) : Lasts m fuel := by
  induction fuel with
  | zero =>
      refine ⟨fun depth s enough => ?_, fun depth s enough => ?_, fun depth keys s enough => ?_⟩
      all_goals omega
  | succ fuel ih =>
      exact ⟨fun _ _ => ih.nextValue, fun _ _ => ih.nextItems, fun _ _ _ => ih.nextMembers⟩

end Scanning

/-! ## The parsers -/

/-- The program throws; it does not run out of fuel. -/
def Throws (result : Except Thrown Value) : Prop := ∃ e, result = .error e ∧ e ≠ .exhausted

section Parsing

variable {m : Messages} {text : List Char}

theorem parse_cases (m : Messages) (text : List Char) :
    (∃ v, parse m text = .ok v ∧ jsonParse text = some v ∧
      ∃ r, scanValue m (fuelFor text) 0 text = .ok r) ∨ Throws (parse m text) := by
  have passes := (lasts (m := m) (fuelFor text)).value 0 text (Nat.le_refl _)
  unfold parse
  cases scan : scanValue m (fuelFor text) 0 text with
  | error e =>
      refine .inr ⟨e, rfl, fun same => passes.1 ?_⟩
      rw [scan, same]
  | ok r =>
      dsimp only
      by_cases ended : skip whitespace r = []
      · rw [if_pos ended]
        cases parsed : jsonParse text with
        | none => exact .inr ⟨.syntaxError, rfl, fun same => by cases same⟩
        | some v => exact .inl ⟨v, rfl, rfl, r, rfl⟩
      · rw [if_neg ended]
        exact .inr ⟨_, rfl, fun same => by cases same⟩

/-- What the scan of a JSON text decides. -/
theorem scan_text {t : Tree} (derives : JsonText t text) :
    ∃ r, Space r [] ∧ Decided (Strict t) (scanValue m (fuelFor text) 0 text) r := by
  obtain ⟨s, r, before, value, after⟩ := derives
  refine ⟨r, after, scans value (fuelFor text) 0 text (skip_start before value) ?_
    (.of_space after fun c is => by cases is)⟩
  have := before.length
  rw [fuelFor]
  omega

theorem parse_strict {t : Tree} (derives : JsonText t text) (strict : Strict t) :
    parse m text = .ok t.value := by
  obtain ⟨r, after, decided⟩ := scan_text (m := m) derives
  have ended : skip whitespace r = [] :=
    skip_eq after (fun _ => whitespace_of_jsonSpace) fun c is => by cases is
  rcases decided with ⟨-, scan⟩ | ⟨loose, -⟩
  · rw [parse, scan]
    dsimp only
    rw [if_pos ended, jsonParse_iff.mpr ⟨t, derives, rfl⟩]
  · exact absurd strict loose

/-- **A parser accepts the strict texts**, each with the value of `JSON.parse`. -/
theorem parse_iff {v : Value} :
    parse m text = .ok v ↔ ∃ t, JsonText t text ∧ Strict t ∧ t.value = v := by
  constructor
  · intro run
    rcases parse_cases m text with ⟨w, is, parsed, r, scan⟩ | ⟨e, is, -⟩
    · rw [run] at is
      obtain rfl := Except.ok.inj is
      obtain ⟨t, derives, value⟩ := jsonParse_iff.mp parsed
      obtain ⟨r', -, decided⟩ := scan_text (m := m) derives
      rcases decided with ⟨strict, -⟩ | ⟨-, e, refused⟩
      · exact ⟨t, derives, strict, value⟩
      · rw [scan] at refused
        cases refused
    · rw [run] at is
      cases is
  · rintro ⟨t, derives, strict, rfl⟩
    exact parse_strict derives strict

/-- What a parser makes of a text. -/
structure Exact (result : Except Thrown Value) (text : List Char) : Prop where
  accepts : ∀ t, JsonText t text → Strict t → result = .ok t.value ∧ jsonParse text = some t.value
  refuses : (¬ ∃ t, JsonText t text ∧ Strict t) → Throws result

theorem parse_exact (m : Messages) (text : List Char) : Exact (parse m text) text where
  accepts t derives strict :=
    ⟨parse_strict derives strict, jsonParse_iff.mpr ⟨t, derives, rfl⟩⟩
  refuses none := by
    rcases parse_cases m text with ⟨v, is, -⟩ | throws
    · obtain ⟨t, derives, strict, -⟩ := parse_iff.mp is
      exact absurd ⟨t, derives, strict⟩ none
    · exact throws

end Parsing

/-- **Strict JSON accepts exactly its language.**  Both parsers accept the strict texts with the
value of `JSON.parse` and throw on every other text, so they agree on the text of the octets. -/
theorem strictJson_exact :
    (∀ source, Exact (parseJsonStrict source) source) ∧
      (∀ bytes text, decodeUtf8 bytes = some text → Exact (parseStrictJson bytes) text) ∧
      (∀ bytes, decodeUtf8 bytes = none → Throws (parseStrictJson bytes)) ∧
      ∀ bytes text v, decodeUtf8 bytes = some text →
        (parseStrictJson bytes = .ok v ↔ parseJsonStrict text = .ok v) := by
  have decoded : ∀ {bytes text}, decodeUtf8 bytes = some text →
      parseStrictJson bytes = parse strictMessages text := by
    intro bytes text is
    rw [parseStrictJson, is]
  refine ⟨parse_exact _, fun bytes text is => ?_, fun bytes is => ?_, fun bytes text v is => ?_⟩
  · rw [decoded is]
    exact parse_exact _ _
  · rw [parseStrictJson, is]
    exact ⟨.typeError, rfl, fun same => by cases same⟩
  · rw [decoded is, parse_iff, parseJsonStrict, parse_iff]

end Knowledger.StrictJson
