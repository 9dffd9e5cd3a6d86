import Knowledger.Lib.Json

/-!
# Errors and canonical JSON

The domain's error value, and its canonical JSON: `canonicalize` prints a value with the
properties of every object sorted, after checking that it is JSON at all and within the
limits of the protocol.  `canonicalize_eq` says what the printed text is, and
`canonicalize_inj` that two values with one canonical text differ only in the order of
their properties.
-/

namespace Knowledger

open Js

/-! ## Errors -/

structure DomainErrorOptions where
  status : Nat := 400
  retryable : Bool := false
  details : Option Value := none

structure DomainError where
  code : String
  message : String
  status : Nat
  retryable : Bool
  details : Option Value

/-- What a function of the port may throw: a `DomainError`, the `URIError` of
`encodeURIComponent` on an unpaired surrogate, or another `Error`. -/
inductive Thrown
  | domain (error : DomainError)
  | uriError
  | error (message : String)

def fail {α : Type} (code message : String) (options : DomainErrorOptions) :
    Except DomainError α :=
  .error ⟨code, message, options.status, options.retryable, options.details⟩

/-- A string in a message. -/
def display : Str → String
  | .wellFormed s => s
  | .illFormed _ _ => "\uFFFD"

/-! ## Canonical JSON -/

def maxSafeInteger : Int := 9007199254740991

def isSafeInteger (n : Int) : Bool := -maxSafeInteger ≤ n && n ≤ maxSafeInteger

def assertValidUnicode (value : Str) (label : String) : Except DomainError String :=
  match value with
  | .wellFormed s => .ok s
  | .illFormed _ _ => fail "INVALID_INPUT" (label ++ " contains an unpaired surrogate") {}

def canonicalNumber : Number → Except DomainError (List Char)
  | .nan => fail "INVALID_INPUT" "non-finite numbers are not valid JSON" {}
  | .infinite _ => fail "INVALID_INPUT" "non-finite numbers are not valid JSON" {}
  | .int n =>
      if isSafeInteger n then .ok (Number.int n).text
      else fail "INVALID_INPUT" "unsafe integer is not canonical JSON" {}
  | .fraction t isFraction => .ok (Number.fraction t isFraction).text

def maxCanonicalDepth : Nat := 128
def maxCanonicalArrayItems : Nat := 65536

/-- The properties of an object as text, in the order of their names. -/
def collectFields : List (Str × Except DomainError (List Char)) →
    Except DomainError (List (List Char))
  | [] => .ok []
  | (key, text) :: rest => do
      let key ← assertValidUnicode key "object key"
      let text ← text
      let rest ← collectFields rest
      return (quote key ++ ':' :: text) :: rest

def fieldTextLe (a b : Str × Except DomainError (List Char)) : Prop :=
  leUnits a.1.units b.1.units = true

instance : DecidableRel fieldTextLe := fun a b =>
  inferInstanceAs (Decidable (leUnits a.1.units b.1.units = true))

mutual
def canonicalizeValue (value : Value) (depth : Nat) : Except DomainError (List Char) :=
  if depth > maxCanonicalDepth then
    fail "CANONICALIZATION_LIMIT" "canonical JSON nesting exceeds the supported limit" {}
  else
    match value with
    | .null => .ok "null".toList
    | .str s => do
        let s ← assertValidUnicode s "string"
        return quote s
    | .num n => canonicalNumber n
    | .bool b => .ok (if b then "true".toList else "false".toList)
    | .arr items =>
        if items.length > maxCanonicalArrayItems then
          fail "CANONICALIZATION_LIMIT" "canonical JSON array exceeds the supported limit" {}
        else do
          let texts ← canonicalizeItems items (depth + 1)
          return '[' :: ([','].intercalate texts ++ [']'])
    | .obj fields => do
        let texts ← collectFields
          ((canonicalizeFields fields (depth + 1)).insertionSort fieldTextLe)
        return '{' :: ([','].intercalate texts ++ ['}'])

def canonicalizeItems (items : List Value) (depth : Nat) :
    Except DomainError (List (List Char)) :=
  match items with
  | [] => .ok []
  | v :: rest => do
      let text ← canonicalizeValue v depth
      let rest ← canonicalizeItems rest depth
      return text :: rest

def canonicalizeFields (fields : Fields) (depth : Nat) :
    List (Str × Except DomainError (List Char)) :=
  match fields with
  | [] => []
  | (key, v) :: rest => (key, canonicalizeValue v depth) :: canonicalizeFields rest depth
end

def canonicalize (value : Value) : Except DomainError String := do
  let text ← canonicalizeValue value 0
  return String.ofList text

/-- `JSON.parse` of the canonical text: the value with its properties sorted. -/
def cloneCanonical (value : Value) : Except DomainError Value := do
  let _ ← canonicalize value
  return value.normalize

/-- A failed comparison is `false`. -/
def sameJson (left right : Value) : Bool :=
  match canonicalize left, canonicalize right with
  | .ok l, .ok r => l == r
  | _, _ => false

/-! ## What the text is -/

theorem canonicalizeFields_eq (fields : Fields) (depth : Nat) :
    canonicalizeFields fields depth =
      fields.map fun f => (f.1, canonicalizeValue f.2 depth) := by
  induction fields with
  | nil => rfl
  | cons f rest ih =>
      obtain ⟨k, v⟩ := f
      rw [canonicalizeFields, ih, List.map_cons]

theorem normalize_sorted (fields : Fields) :
    fields.normalize =
      (fields.insertionSort fieldLe).map fun f => (f.1, f.2.normalize) := by
  rw [Fields.normalize, normalizeFields_eq]
  exact (List.map_insertionSort fieldLe fieldLe (fun f : Str × Value => (f.1, f.2.normalize))
    fields fun _ _ _ _ => Iff.rfl).symm

theorem canonicalizeFields_sorted (fields : Fields) (depth : Nat) :
    (canonicalizeFields fields depth).insertionSort fieldTextLe =
      (fields.insertionSort fieldLe).map fun f => (f.1, canonicalizeValue f.2 depth) := by
  rw [canonicalizeFields_eq]
  exact (List.map_insertionSort fieldLe fieldTextLe
    (fun f : Str × Value => (f.1, canonicalizeValue f.2 depth)) fields
    fun _ _ _ _ => Iff.rfl).symm

theorem itemsText_eq (items : List Value) :
    itemsText items = [','].intercalate (items.map Value.text) := by
  induction items with
  | nil => rfl
  | cons v rest ih =>
      cases rest with
      | nil => simp [itemsText, List.intercalate]
      | cons w rest =>
          rw [itemsText, ih]
          simp [List.intercalate]

theorem fieldsText_eq (fields : Fields) :
    fieldsText fields =
      [','].intercalate (fields.map fun f => f.1.text ++ ':' :: f.2.text) := by
  induction fields with
  | nil => rfl
  | cons f rest ih =>
      obtain ⟨k, v⟩ := f
      cases rest with
      | nil => simp [fieldsText, List.intercalate]
      | cons g rest =>
          rw [fieldsText, ih]
          simp [List.intercalate]

/-- The canonical text of a value is the plain text of the value with sorted
properties. -/
def Canonical (v : Value) (depth : Nat) : Prop :=
  ∀ {t : List Char}, canonicalizeValue v depth = .ok t →
    t = v.normalize.text ∧ v.normalize.printable = true

theorem canonicalizeItems_eq {items : List Value} {depth : Nat} {texts : List (List Char)}
    (ih : ∀ v ∈ items, Canonical v depth) (h : canonicalizeItems items depth = .ok texts) :
    texts = (items.map Value.normalize).map Value.text ∧
      printableItems (items.map Value.normalize) = true := by
  induction items generalizing texts with
  | nil =>
      cases h
      exact ⟨rfl, rfl⟩
  | cons v rest tails =>
      rw [canonicalizeItems] at h
      cases head : canonicalizeValue v depth with
      | error e => rw [head] at h; cases h
      | ok t =>
          cases more : canonicalizeItems rest depth with
          | error e => rw [head, more] at h; cases h
          | ok ts =>
              rw [head, more] at h
              cases h
              obtain ⟨text, printable⟩ := ih v (by simp) head
              obtain ⟨texts, printables⟩ := tails (fun w mem => ih w (by simp [mem])) more
              exact ⟨by rw [text, texts]; rfl, by
                rw [List.map_cons, printableItems, printable, printables]; rfl⟩

theorem collectFields_eq {fields : Fields} {depth : Nat} {texts : List (List Char)}
    (ih : ∀ f ∈ fields, Canonical f.2 depth)
    (h : collectFields (fields.map fun f => (f.1, canonicalizeValue f.2 depth)) = .ok texts) :
    texts = (fields.map fun f => (f.1, f.2.normalize)).map
        (fun f => f.1.text ++ ':' :: f.2.text) ∧
      printableFields (fields.map fun f => (f.1, f.2.normalize)) = true := by
  induction fields generalizing texts with
  | nil =>
      cases h
      exact ⟨rfl, rfl⟩
  | cons f rest tails =>
      obtain ⟨key, v⟩ := f
      rw [List.map_cons, collectFields] at h
      cases key with
      | illFormed units unpaired => cases h
      | wellFormed key =>
          cases head : canonicalizeValue v depth with
          | error e => rw [head] at h; cases h
          | ok t =>
              cases more : collectFields
                  (rest.map fun f => (f.1, canonicalizeValue f.2 depth)) with
              | error e => rw [head, more] at h; cases h
              | ok ts =>
                  rw [head, more] at h
                  cases h
                  obtain ⟨text, printable⟩ := ih (.wellFormed key, v) (by simp) head
                  obtain ⟨texts, printables⟩ :=
                    tails (fun w mem => ih w (by simp [mem])) more
                  exact ⟨by rw [text, texts]; rfl, by
                    rw [List.map_cons, printableFields, printable, printables]; rfl⟩

theorem canonicalizeNumber_eq {n : Number} {t : List Char} (h : canonicalNumber n = .ok t) :
    t = n.text ∧ n.printable = true := by
  cases n with
  | int n =>
      rw [canonicalNumber] at h
      split_ifs at h
      · cases h
        exact ⟨rfl, rfl⟩
      · cases h
  | fraction u isFraction =>
      cases h
      exact ⟨rfl, rfl⟩
  | infinite negative => cases h
  | nan => cases h

theorem canonicalizeValue_eq (v : Value) (depth : Nat) : Canonical v depth := by
  induction v using Value.ind generalizing depth with
  | null =>
      intro t h
      rw [canonicalizeValue] at h
      split_ifs at h
      · cases h
      · cases h
        exact ⟨by simp [Value.text], by simp [Value.printable]⟩
  | bool b =>
      intro t h
      rw [canonicalizeValue] at h
      cases b <;> by_cases deep : depth > maxCanonicalDepth <;>
        simp only [deep, if_true, if_false, Bool.false_eq_true] at h <;> cases h <;>
        exact ⟨by simp [Value.text], by simp [Value.printable]⟩
  | num n =>
      intro t h
      rw [canonicalizeValue] at h
      split_ifs at h
      · cases h
      · obtain ⟨text, printable⟩ := canonicalizeNumber_eq h
        exact ⟨by simp [Value.text, text], by simp [Value.printable, printable]⟩
  | str s =>
      intro t h
      rw [canonicalizeValue] at h
      split_ifs at h
      · cases h
      · cases s with
        | wellFormed s =>
            cases h
            exact ⟨by simp [Value.text, Str.text], by simp [Value.printable]⟩
        | illFormed units unpaired => cases h
  | arr items each =>
      intro t h
      rw [canonicalizeValue] at h
      split_ifs at h
      · cases h
      · cases h
      · cases texts : canonicalizeItems items (depth + 1) with
        | error e => rw [texts] at h; cases h
        | ok ts =>
            rw [texts] at h
            cases h
            obtain ⟨text, printable⟩ :=
              canonicalizeItems_eq (fun v mem => each v mem (depth + 1)) texts
            rw [Value.normalize_arr, Value.text, itemsText_eq, ← text, Value.printable]
            exact ⟨rfl, printable⟩
  | obj fields each =>
      intro t h
      rw [canonicalizeValue] at h
      split_ifs at h
      · cases h
      · rw [canonicalizeFields_sorted] at h
        cases texts : collectFields ((fields.insertionSort fieldLe).map
            fun f => (f.1, canonicalizeValue f.2 (depth + 1))) with
        | error e => rw [texts] at h; cases h
        | ok ts =>
            rw [texts] at h
            cases h
            have all : ∀ f ∈ fields.insertionSort fieldLe, Canonical f.2 (depth + 1) :=
              fun f mem => each f ((List.mem_insertionSort fieldLe).mp mem) (depth + 1)
            obtain ⟨text, printable⟩ := collectFields_eq all texts
            rw [Value.normalize_obj, Value.text, fieldsText_eq, normalize_sorted, ← text,
              Value.printable]
            exact ⟨rfl, printable⟩

theorem canonicalize_eq {v : Value} {text : String} (h : canonicalize v = .ok text) :
    text = String.ofList v.normalize.text ∧ v.normalize.printable = true := by
  unfold canonicalize at h
  cases run : canonicalizeValue v 0 with
  | error e => rw [run] at h; cases h
  | ok t =>
      rw [run] at h
      cases h
      obtain ⟨same, printable⟩ := canonicalizeValue_eq v 0 run
      exact ⟨by rw [same], printable⟩

/-- **Canonical text determines the value** up to the order of properties. -/
theorem canonicalize_inj {v w : Value} {text : String} (hv : canonicalize v = .ok text)
    (hw : canonicalize w = .ok text) : v.normalize = w.normalize := by
  obtain ⟨left, pv⟩ := canonicalize_eq hv
  obtain ⟨right, pw⟩ := canonicalize_eq hw
  refine Value.text_inj pv pw ?_
  have same := left.symm.trans right
  simpa using congrArg String.toList same

theorem cloneCanonical_ok {v w : Value} (h : cloneCanonical v = .ok w) : w = v.normalize := by
  unfold cloneCanonical at h
  cases run : canonicalize v with
  | error e => rw [run] at h; cases h
  | ok t =>
      rw [run] at h
      cases h
      rfl

/-! ### Sorted properties have the same text -/

theorem canonicalizeItems_congr {items : List Value} {depth : Nat}
    (each : ∀ v ∈ items, canonicalizeValue v.normalize depth = canonicalizeValue v depth) :
    canonicalizeItems (items.map Value.normalize) depth = canonicalizeItems items depth := by
  induction items with
  | nil => rfl
  | cons v rest ih =>
      rw [List.map_cons, canonicalizeItems, canonicalizeItems, each v (by simp),
        ih fun w mem => each w (by simp [mem])]

theorem canonicalizeFields_congr {fields : Fields} {depth : Nat}
    (each : ∀ f ∈ fields, canonicalizeValue f.2.normalize depth = canonicalizeValue f.2 depth) :
    (canonicalizeFields fields.normalize depth).insertionSort fieldTextLe =
      (canonicalizeFields fields depth).insertionSort fieldTextLe := by
  rw [canonicalizeFields_sorted, canonicalizeFields_sorted,
    (Fields.normalize_pairwise fields).insertionSort_eq, normalize_sorted, List.map_map]
  refine List.map_congr_left fun f mem => ?_
  exact congrArg (Prod.mk f.1) (each f ((List.mem_insertionSort fieldLe).mp mem))

theorem canonicalizeValue_normalize (v : Value) (depth : Nat) :
    canonicalizeValue v.normalize depth = canonicalizeValue v depth := by
  induction v using Value.ind generalizing depth with
  | null => rw [Value.normalize_null]
  | bool b => rw [Value.normalize_bool]
  | num n => rw [Value.normalize_num]
  | str s => rw [Value.normalize_str]
  | arr items each =>
      rw [Value.normalize_arr, canonicalizeValue, canonicalizeValue, List.length_map,
        canonicalizeItems_congr fun v mem => each v mem (depth + 1)]
  | obj fields each =>
      rw [Value.normalize_obj, canonicalizeValue, canonicalizeValue,
        canonicalizeFields_congr fun f mem => each f mem (depth + 1)]

@[simp] theorem canonicalize_normalize (v : Value) :
    canonicalize v.normalize = canonicalize v := by
  rw [canonicalize, canonicalize, canonicalizeValue_normalize]

/-- Two values with the same sorted form have the same canonical text. -/
theorem canonicalize_congr {v w : Value} (same : v.normalize = w.normalize) :
    canonicalize v = canonicalize w := by
  rw [← canonicalize_normalize v, same, canonicalize_normalize]

/-! ## Which values have one -/

def canonicalNumberOk : Number → Bool
  | .int n => isSafeInteger n
  | .fraction _ _ => true
  | .infinite _ => false
  | .nan => false

mutual
/-- The values `canonicalizeValue` accepts at `depth`. -/
def canonicalizable (value : Value) (depth : Nat) : Bool :=
  Nat.ble depth maxCanonicalDepth &&
    match value with
    | .null => true
    | .str (.wellFormed _) => true
    | .str (.illFormed _ _) => false
    | .num n => canonicalNumberOk n
    | .bool _ => true
    | .arr items =>
        Nat.ble items.length maxCanonicalArrayItems && canonicalizableItems items (depth + 1)
    | .obj fields => canonicalizableFields fields (depth + 1)

def canonicalizableItems (items : List Value) (depth : Nat) : Bool :=
  match items with
  | [] => true
  | v :: rest => canonicalizable v depth && canonicalizableItems rest depth

def canonicalizableFields (fields : Fields) (depth : Nat) : Bool :=
  match fields with
  | [] => true
  | (.wellFormed _, v) :: rest => canonicalizable v depth && canonicalizableFields rest depth
  | (.illFormed _ _, _) :: _ => false
end

theorem canonicalizableItems_iff {items : List Value} {depth : Nat} :
    canonicalizableItems items depth = true ↔ ∀ v ∈ items, canonicalizable v depth = true := by
  induction items with
  | nil => simp [canonicalizableItems]
  | cons v rest ih => simp [canonicalizableItems, ih]

def wellFormedKey : Str → Bool
  | .wellFormed _ => true
  | .illFormed _ _ => false

theorem canonicalizableFields_iff {fields : Fields} {depth : Nat} :
    canonicalizableFields fields depth = true ↔
      ∀ f ∈ fields, wellFormedKey f.1 = true ∧ canonicalizable f.2 depth = true := by
  induction fields with
  | nil => simp [canonicalizableFields]
  | cons f rest ih =>
      obtain ⟨key, v⟩ := f
      cases key <;> simp [canonicalizableFields, wellFormedKey, ih]

theorem canonicalizable_normalize (v : Value) (depth : Nat) :
    canonicalizable v.normalize depth = canonicalizable v depth := by
  induction v using Value.ind generalizing depth with
  | null => rfl
  | bool b => rfl
  | num n => rfl
  | str s => rfl
  | arr items each =>
      rw [Bool.eq_iff_iff]
      simp only [Value.normalize, canonicalizable, normalizeItems_eq, List.length_map,
        Bool.and_eq_true, canonicalizableItems_iff, List.forall_mem_map]
      exact and_congr_right fun _ => and_congr_right fun _ =>
        forall₂_congr fun w mem => by rw [each w mem]
  | obj fields each =>
      rw [Bool.eq_iff_iff]
      simp only [Value.normalize, canonicalizable, Bool.and_eq_true,
        canonicalizableFields_iff, List.mem_insertionSort, normalizeFields_eq,
        List.forall_mem_map]
      exact and_congr_right fun _ => forall₂_congr fun f mem => by rw [each f mem]

theorem canonicalizeItems_isOk {items : List Value} {depth : Nat}
    (each : ∀ v ∈ items, ∃ t, canonicalizeValue v depth = .ok t) :
    ∃ ts, canonicalizeItems items depth = .ok ts := by
  induction items with
  | nil => exact ⟨[], rfl⟩
  | cons v rest ih =>
      obtain ⟨t, head⟩ := each v (by simp)
      obtain ⟨ts, tail⟩ := ih fun w mem => each w (by simp [mem])
      exact ⟨t :: ts, by rw [canonicalizeItems, head, tail]; rfl⟩

theorem collectFields_isOk {fields : List (Str × Except DomainError (List Char))}
    (each : ∀ f ∈ fields, wellFormedKey f.1 = true ∧ ∃ t, f.2 = .ok t) :
    ∃ ts, collectFields fields = .ok ts := by
  induction fields with
  | nil => exact ⟨[], rfl⟩
  | cons f rest ih =>
      obtain ⟨key, text⟩ := f
      obtain ⟨wf, t, head⟩ := each (key, text) (by simp)
      obtain ⟨ts, tail⟩ := ih fun g mem => each g (by simp [mem])
      cases key with
      | illFormed units unpaired => cases wf
      | wellFormed key =>
          dsimp only at head
          exact ⟨_, by rw [collectFields, head, tail]; rfl⟩

theorem canonicalizeValue_isOk (v : Value) (depth : Nat) (h : canonicalizable v depth = true) :
    ∃ t, canonicalizeValue v depth = .ok t := by
  induction v using Value.ind generalizing depth with
  | null =>
      rw [canonicalizable.eq_def, Bool.and_eq_true, Nat.ble_eq] at h
      exact ⟨_, by rw [canonicalizeValue, if_neg (by omega)]⟩
  | bool b =>
      rw [canonicalizable.eq_def, Bool.and_eq_true, Nat.ble_eq] at h
      exact ⟨_, by rw [canonicalizeValue, if_neg (by omega)]⟩
  | num n =>
      rw [canonicalizable.eq_def, Bool.and_eq_true, Nat.ble_eq] at h
      obtain ⟨shallow, fits⟩ := h
      rw [canonicalizeValue, if_neg (by omega)]
      cases n with
      | int n => exact ⟨_, if_pos fits⟩
      | fraction t isFraction => exact ⟨_, rfl⟩
      | infinite negative => cases fits
      | nan => cases fits
  | str s =>
      rw [canonicalizable.eq_def, Bool.and_eq_true, Nat.ble_eq] at h
      obtain ⟨shallow, fits⟩ := h
      rw [canonicalizeValue, if_neg (by omega)]
      cases s with
      | wellFormed s => exact ⟨_, rfl⟩
      | illFormed units unpaired => cases fits
  | arr items each =>
      rw [canonicalizable.eq_def, Bool.and_eq_true, Nat.ble_eq] at h
      obtain ⟨shallow, fits⟩ := h
      simp only [Bool.and_eq_true, Nat.ble_eq, canonicalizableItems_iff] at fits
      obtain ⟨ts, texts⟩ := canonicalizeItems_isOk
        fun v mem => each v mem (depth + 1) (fits.2 v mem)
      exact ⟨_, by rw [canonicalizeValue, if_neg (by omega), if_neg (by omega), texts]; rfl⟩
  | obj fields each =>
      rw [canonicalizable.eq_def, Bool.and_eq_true, Nat.ble_eq] at h
      obtain ⟨shallow, fits⟩ := h
      simp only [canonicalizableFields_iff] at fits
      have sorted : ∀ f ∈ (fields.insertionSort fieldLe).map
          (fun f => (f.1, canonicalizeValue f.2 (depth + 1))),
          wellFormedKey f.1 = true ∧ ∃ t, f.2 = .ok t := by
        intro f mem
        obtain ⟨g, inside, rfl⟩ := List.mem_map.mp mem
        have listed := (List.mem_insertionSort fieldLe).mp inside
        exact ⟨(fits g listed).1, each g listed (depth + 1) (fits g listed).2⟩
      obtain ⟨ts, texts⟩ := collectFields_isOk sorted
      exact ⟨_, by
        rw [canonicalizeValue, if_neg (by omega), canonicalizeFields_sorted, texts]; rfl⟩

/-- A value that fits has a canonical text. -/
theorem canonicalize_isOk {v : Value} (fits : canonicalizable v 0 = true) :
    ∃ text, canonicalize v = .ok text := by
  obtain ⟨t, run⟩ := canonicalizeValue_isOk v 0 fits
  exact ⟨String.ofList t, by rw [canonicalize, run]; rfl⟩

/-! ## Digests -/

/-- SHA-256 of the UTF-8 bytes of a text, in hexadecimal. -/
class Sha256 where
  hexDigest : String → String
  length_hexDigest : ∀ s, (hexDigest s).toList.length = 64
  hex_hexDigest : ∀ s, ∀ c ∈ (hexDigest s).toList, c.isDigit = true ∨ ('a' ≤ c ∧ c ≤ 'f')

/-- The digest of a value's canonical text. -/
def canonicalDigest [Sha256] (value : Value) : Except DomainError String := do
  let text ← canonicalize value
  return "sha256:" ++ Sha256.hexDigest text

end Knowledger
