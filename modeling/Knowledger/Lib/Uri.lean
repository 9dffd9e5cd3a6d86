import Mathlib

/-!
# URI components

`encodeURIComponent` and `decodeURIComponent` of ECMAScript on well-formed strings.
Decoding inverts encoding (`decodeURIComponent_encodeURIComponent`), so encoding is
injective, and an encoded component contains none of the characters that separate
components (`not_mem_encodeURIComponent`).
-/

namespace Uri

/-! ## Encoding -/

/-- The characters `encodeURIComponent` leaves alone. -/
def unreserved (c : Char) : Bool :=
  c.isAlphanum || c == '-' || c == '_' || c == '.' || c == '!' || c == '~' || c == '*' ||
    c == '\'' || c == '(' || c == ')'

/-- The UTF-8 octets of a scalar value. -/
def octets (c : Char) : List Nat :=
  let n := c.toNat
  if n < 0x80 then [n]
  else if n < 0x800 then [0xc0 + n / 64, 0x80 + n % 64]
  else if n < 0x10000 then [0xe0 + n / 4096, 0x80 + n / 64 % 64, 0x80 + n % 64]
  else [0xf0 + n / 262144, 0x80 + n / 4096 % 64, 0x80 + n / 64 % 64, 0x80 + n % 64]

def hexUpper (n : Nat) : Char := Char.ofNat (if n < 10 then 48 + n else 55 + n)

def percent (n : Nat) : List Char := ['%', hexUpper (n / 16), hexUpper (n % 16)]

def encodeChar (c : Char) : List Char :=
  if unreserved c then [c] else (octets c).flatMap percent

def encodeURIComponent (s : String) : String := String.ofList (s.toList.flatMap encodeChar)

/-! ## Decoding -/

def hexValue (c : Char) : Option Nat :=
  let n := c.toNat
  if 48 ≤ n ∧ n ≤ 57 then some (n - 48)
  else if 65 ≤ n ∧ n ≤ 70 then some (n - 55)
  else if 97 ≤ n ∧ n ≤ 102 then some (n - 87)
  else none

/-- One percent-encoded octet. -/
def takeOctet : List Char → Option (Nat × List Char)
  | '%' :: a :: b :: r => do
      let high ← hexValue a
      let low ← hexValue b
      some (16 * high + low, r)
  | _ => none

/-- One percent-encoded continuation octet, less its marker bits. -/
def takeContinuation (r : List Char) : Option (Nat × List Char) := do
  let (b, r) ← takeOctet r
  if 0x80 ≤ b ∧ b < 0xc0 then some (b - 0x80, r) else none

/-- One character of a component; `none` is a `URIError`. -/
def decodeStep : List Char → Option (Char × List Char)
  | [] => none
  | '%' :: r => do
      let (b, r) ← takeOctet ('%' :: r)
      if b < 0x80 then some (Char.ofNat b, r)
      else if 0xc0 ≤ b ∧ b < 0xe0 then do
        let (x, r) ← takeContinuation r
        let n := (b - 0xc0) * 64 + x
        if 0x80 ≤ n then some (Char.ofNat n, r) else none
      else if 0xe0 ≤ b ∧ b < 0xf0 then do
        let (x, r) ← takeContinuation r
        let (y, r) ← takeContinuation r
        let n := (b - 0xe0) * 4096 + x * 64 + y
        if 0x800 ≤ n ∧ ¬ (0xd800 ≤ n ∧ n ≤ 0xdfff) then some (Char.ofNat n, r) else none
      else if 0xf0 ≤ b ∧ b < 0xf8 then do
        let (x, r) ← takeContinuation r
        let (y, r) ← takeContinuation r
        let (z, r) ← takeContinuation r
        let n := (b - 0xf0) * 262144 + x * 4096 + y * 64 + z
        if 0x10000 ≤ n ∧ n ≤ 0x10ffff then some (Char.ofNat n, r) else none
      else none
  | c :: r => some (c, r)

/-- Decode at most `fuel` characters. -/
def decodeChars : Nat → List Char → Option (List Char)
  | _, [] => some []
  | 0, _ :: _ => none
  | fuel + 1, c :: r => do
      let (d, r) ← decodeStep (c :: r)
      let rest ← decodeChars fuel r
      some (d :: rest)

/-- `none` is a `URIError`. -/
def decodeURIComponent (s : String) : Option String :=
  (decodeChars s.toList.length s.toList).map String.ofList

/-! ## Decoding inverts encoding -/

theorem hexValue_hexUpper {n : Nat} (small : n < 16) : hexValue (hexUpper n) = some n := by
  interval_cases n <;> decide

theorem takeOctet_percent {n : Nat} (small : n < 256) (r : List Char) :
    takeOctet (percent n ++ r) = some (n, r) := by
  simp only [percent, List.cons_append, List.nil_append, takeOctet,
    hexValue_hexUpper (show n / 16 < 16 by omega), hexValue_hexUpper (show n % 16 < 16 by omega)]
  exact congrArg some (Prod.ext (by dsimp only; omega) rfl)

theorem takeContinuation_percent {n : Nat} (small : n < 64) (r : List Char) :
    takeContinuation (percent (0x80 + n) ++ r) = some (n, r) := by
  unfold takeContinuation
  rw [takeOctet_percent (by omega)]
  simp only [Option.bind_eq_bind, Option.bind_some]
  rw [if_pos (by omega)]
  exact congrArg some (Prod.ext (by dsimp only; omega) rfl)

theorem decodeStep_percent (n : Nat) (r : List Char) :
    decodeStep (percent n ++ r) =
      (do
        let (b, r) ← takeOctet (percent n ++ r)
        if b < 0x80 then some (Char.ofNat b, r)
        else if 0xc0 ≤ b ∧ b < 0xe0 then do
          let (x, r) ← takeContinuation r
          let n := (b - 0xc0) * 64 + x
          if 0x80 ≤ n then some (Char.ofNat n, r) else none
        else if 0xe0 ≤ b ∧ b < 0xf0 then do
          let (x, r) ← takeContinuation r
          let (y, r) ← takeContinuation r
          let n := (b - 0xe0) * 4096 + x * 64 + y
          if 0x800 ≤ n ∧ ¬ (0xd800 ≤ n ∧ n ≤ 0xdfff) then some (Char.ofNat n, r) else none
        else if 0xf0 ≤ b ∧ b < 0xf8 then do
          let (x, r) ← takeContinuation r
          let (y, r) ← takeContinuation r
          let (z, r) ← takeContinuation r
          let n := (b - 0xf0) * 262144 + x * 4096 + y * 64 + z
          if 0x10000 ≤ n ∧ n ≤ 0x10ffff then some (Char.ofNat n, r) else none
        else none) := rfl

theorem ofNat_eq (c : Char) {n : Nat} (h : n = c.toNat) : Char.ofNat n = c := by
  rw [h, Char.ofNat_toNat]

theorem decodeStep_octets (c : Char) (r : List Char) :
    decodeStep ((octets c).flatMap percent ++ r) = some (c, r) := by
  have valid : c.toNat < 0xd800 ∨ 0xdfff < c.toNat ∧ c.toNat < 0x110000 := c.valid
  unfold octets
  dsimp only
  split_ifs with one two three <;>
    simp only [List.flatMap_cons, List.flatMap_nil, List.append_nil, List.append_assoc] <;>
    rw [decodeStep_percent, takeOctet_percent (by omega)] <;>
    simp only [Option.bind_eq_bind, Option.bind_some]
  · rw [if_pos one, Char.ofNat_toNat]
  · rw [if_neg (by omega), if_pos (by omega), takeContinuation_percent (by omega)]
    simp only [Option.bind_some]
    rw [if_pos (by omega), ofNat_eq c (by omega)]
  · rw [if_neg (by omega), if_neg (by omega), if_pos (by omega),
      takeContinuation_percent (by omega)]
    simp only [Option.bind_some]
    rw [takeContinuation_percent (by omega)]
    simp only [Option.bind_some]
    rw [if_pos (by omega), ofNat_eq c (by omega)]
  · rw [if_neg (by omega), if_neg (by omega), if_neg (by omega), if_pos (by omega),
      takeContinuation_percent (by omega)]
    simp only [Option.bind_some]
    rw [takeContinuation_percent (by omega)]
    simp only [Option.bind_some]
    rw [takeContinuation_percent (by omega)]
    simp only [Option.bind_some]
    rw [if_pos (by omega), ofNat_eq c (by omega)]

theorem decodeStep_encodeChar (c : Char) (r : List Char) :
    decodeStep (encodeChar c ++ r) = some (c, r) := by
  unfold encodeChar
  split_ifs with plain
  · have notPercent : c ≠ '%' := by
      rintro rfl
      exact absurd plain (by decide)
    simp [decodeStep]
  · exact decodeStep_octets c r

theorem encodeChar_ne_nil (c : Char) : encodeChar c ≠ [] := by
  intro empty
  have step := decodeStep_encodeChar c []
  rw [empty] at step
  cases step

theorem decodeChars_encode (cs : List Char) {fuel : Nat}
    (enough : (cs.flatMap encodeChar).length ≤ fuel) :
    decodeChars fuel (cs.flatMap encodeChar) = some cs := by
  induction cs generalizing fuel with
  | nil => cases fuel <;> rfl
  | cons c cs ih =>
      rw [List.flatMap_cons] at enough ⊢
      have step := decodeStep_encodeChar c (cs.flatMap encodeChar)
      cases head : encodeChar c with
      | nil => exact absurd head (encodeChar_ne_nil c)
      | cons d ds =>
          rw [head] at step enough
          cases fuel with
          | zero => simp at enough
          | succ fuel =>
              rw [List.cons_append] at step ⊢
              rw [decodeChars, step]
              simp only [Option.bind_eq_bind, Option.bind_some]
              simp only [List.cons_append, List.length_cons, List.length_append] at enough
              rw [ih (by omega)]
              rfl

theorem decodeURIComponent_encodeURIComponent (s : String) :
    decodeURIComponent (encodeURIComponent s) = some s := by
  unfold decodeURIComponent encodeURIComponent
  rw [String.toList_ofList, decodeChars_encode s.toList (le_refl _), Option.map_some,
    String.ofList_toList]

theorem encodeURIComponent_injective : Function.Injective encodeURIComponent := by
  intro s t h
  have read := congrArg decodeURIComponent h
  rw [decodeURIComponent_encodeURIComponent, decodeURIComponent_encodeURIComponent] at read
  exact Option.some.inj read

/-- An encoded component has only unreserved characters and `%`. -/
theorem mem_encodeURIComponent {s : String} {c : Char}
    (mem : c ∈ (encodeURIComponent s).toList) : unreserved c = true ∨ c = '%' := by
  have hex : ∀ n < 16, unreserved (hexUpper n) = true := by
    intro n small
    interval_cases n <;> decide
  unfold encodeURIComponent at mem
  rw [String.toList_ofList, List.mem_flatMap] at mem
  obtain ⟨d, _, inside⟩ := mem
  unfold encodeChar at inside
  split_ifs at inside with plain
  · rw [List.mem_singleton.mp inside]
    exact Or.inl plain
  · rw [List.mem_flatMap] at inside
    obtain ⟨n, octet, inside⟩ := inside
    have small : n < 256 := by
      have valid : d.toNat < 0xd800 ∨ 0xdfff < d.toNat ∧ d.toNat < 0x110000 := d.valid
      unfold octets at octet
      dsimp only at octet
      split_ifs at octet <;> simp only [List.mem_cons, List.not_mem_nil, or_false] at octet <;>
        omega
    simp only [percent, List.mem_cons, List.not_mem_nil, or_false] at inside
    rcases inside with rfl | rfl | rfl
    · exact Or.inr rfl
    · exact Or.inl (hex _ (by omega))
    · exact Or.inl (hex _ (by omega))

theorem not_mem_encodeURIComponent (s : String) {c : Char} (reserved : unreserved c = false)
    (other : c ≠ '%') : c ∉ (encodeURIComponent s).toList := by
  intro mem
  rcases mem_encodeURIComponent mem with plain | same
  · rw [plain] at reserved
    cases reserved
  · exact other same

/-- A string of unreserved characters is its own encoding. -/
theorem encodeURIComponent_of_unreserved {s : String} (plain : s.toList.all unreserved) :
    encodeURIComponent s = s := by
  unfold encodeURIComponent
  rw [← String.toList_inj, String.toList_ofList]
  revert plain
  induction s.toList with
  | nil => intro _; rfl
  | cons c cs ih =>
      intro plain
      simp only [List.all_cons, Bool.and_eq_true] at plain
      rw [List.flatMap_cons, ih plain.2, encodeChar, if_pos plain.1]
      rfl

end Uri
