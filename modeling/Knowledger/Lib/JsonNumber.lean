import Knowledger.Lib.Json

/-!
# Numerals

The numbers of a JSON text are decimal numerals.  `Numeral.number` is the number a numeral
stands for: the double nearest to it, with ties to the even mantissa, which is an integer, a
fraction named by its shortest decimal, or beyond the largest double.
`Numeral.number_int`: the numeral that a safe integer prints as stands for that integer.
-/

namespace Js

/-! ## Numerals -/

structure Exponent where
  mark : Char
  sign : List Char
  digits : List Char
  deriving DecidableEq

structure Numeral where
  negative : Bool
  whole : List Char
  fraction : List Char
  exponent : Option Exponent
  deriving DecidableEq

def Exponent.text (e : Exponent) : List Char := e.mark :: (e.sign ++ e.digits)

def Exponent.value (e : Exponent) : Int :=
  if e.sign = ['-'] then -(Nat.ofDigitChars 10 e.digits 0 : Int)
  else (Nat.ofDigitChars 10 e.digits 0 : Int)

def exponentText : Option Exponent → List Char
  | none => []
  | some e => e.text

def fractionPart : List Char → List Char
  | [] => []
  | d :: ds => '.' :: d :: ds

def Numeral.text (n : Numeral) : List Char :=
  (if n.negative then ['-'] else []) ++ (n.whole ++ (fractionPart n.fraction ++
    exponentText n.exponent))

/-! ## Doubles -/

/-- The integer nearest to `n / m`; of two, the even one. -/
def halfEven (n m : Nat) : Nat :=
  let q := n / m
  let r := n % m
  if 2 * r < m then q
  else if m < 2 * r then q + 1
  else if q % 2 = 0 then q
  else q + 1

/-- The integer part of the binary logarithm of `n / m`. -/
def floorLog2 (n m : Nat) : Int :=
  let l : Int := (Nat.log2 n : Int) - (Nat.log2 m : Int)
  if n * 2 ^ (-l).toNat < m * 2 ^ l.toNat then l - 1 else l

/-- A mantissa of 53 bits, or fewer for the smallest doubles, and a power of two. -/
structure Double where
  mantissa : Nat
  exponent : Int

/-- The double nearest to `n / m`. -/
def nearest (n m : Nat) : Double :=
  let exponent := max (floorLog2 n m - 52) (-1074)
  ⟨halfEven (n * 2 ^ (-exponent).toNat) (m * 2 ^ exponent.toNat), exponent⟩

/-- The double as a fraction. -/
def Double.numerator (x : Double) : Nat := x.mantissa * 2 ^ x.exponent.toNat
def Double.denominator (x : Double) : Nat := 2 ^ (-x.exponent).toNat

/-! ## The shortest decimal -/

/-- `s * 10 ^ e` as a fraction. -/
def scaled (s : Nat) (e : Int) : Nat × Nat := (s * 10 ^ e.toNat, 10 ^ (-e).toNat)

/-- The decimal reads back as the double. -/
def readsBack (x : Double) (s : Nat) (e : Int) : Bool :=
  let y := nearest (scaled s e).1 (scaled s e).2
  y.numerator * x.denominator == x.numerator * y.denominator

/-- The smallest `n` with `x < 10 ^ n`. -/
def decimalPoint (x : Double) : Int :=
  let below (n : Int) : Bool := x.numerator * 10 ^ (-n).toNat < x.denominator * 10 ^ n.toNat
  (((List.range 700).map fun i => (i : Int) - 330).find? below).getD 0

/-- The digits of the two decimals of `p` digits next to the double, the nearer one first. -/
def candidates (x : Double) (e : Int) : List Nat :=
  let n := x.numerator * 10 ^ (-e).toNat
  let m := x.denominator * 10 ^ e.toNat
  let low := n / m
  if halfEven n m = low then [low, low + 1] else [low + 1, low]

/-- The digits of the shortest decimal that reads back as the double, and its exponent. -/
def shortest (x : Double) : Nat × Int :=
  let point := decimalPoint x
  let found := (List.range 17).findSome? fun p =>
    let e := point - ((p : Int) + 1)
    ((candidates x e).find? fun s => readsBack x s e).map fun s => (s, e)
  found.getD (0, 0)

/-- `Number::toString` of the digits `ds`, with the decimal point behind the first `n`. -/
def decimalText (ds : List Char) (n : Int) : List Char :=
  let k : Int := ds.length
  if k ≤ n ∧ n ≤ 21 then ds ++ List.replicate (n - k).toNat '0'
  else if 0 < n ∧ n ≤ 21 then ds.take n.toNat ++ '.' :: ds.drop n.toNat
  else if -6 < n ∧ n ≤ 0 then '0' :: '.' :: (List.replicate (-n).toNat '0' ++ ds)
  else
    let exponent := 'e' :: (if 0 < n then '+' else '-') :: Nat.toDigits 10 (n - 1).natAbs
    match ds with
    | [d] => d :: exponent
    | d :: rest => d :: '.' :: (rest ++ exponent)
    | [] => []

def shortestText (negative : Bool) (x : Double) : List Char :=
  let (s, e) := shortest x
  let all := Nat.toDigits 10 s
  let ds := all.rdropWhile (· == '0')
  (if negative then ['-'] else []) ++ decimalText ds (all.length + e)

/-- A double as a number; one that is not an integer prints with a point or an exponent. -/
def Double.number (negative : Bool) (x : Double) : Number :=
  if 2 ^ 1024 ≤ x.numerator then .infinite negative
  else if x.denominator ∣ x.numerator then
    let n : Int := x.numerator / x.denominator
    .int (if negative then -n else n)
  else
    let text := String.ofList (shortestText negative x)
    if isFraction : fractionText text.toList then .fraction text isFraction else .nan

/-- The digits without the point, and the power of ten that puts it back. -/
def Numeral.number (n : Numeral) : Number :=
  let digits := Nat.ofDigitChars 10 (n.whole ++ n.fraction) 0
  let exponent := (match n.exponent with
    | none => 0
    | some e => e.value) - (n.fraction.length : Int)
  (nearest (scaled digits exponent).1 (scaled digits exponent).2).number n.negative

/-! ## Integers -/

theorem halfEven_one (n : Nat) : halfEven n 1 = n := by
  simp [halfEven, Nat.mod_one]

theorem floorLog2_one {n : Nat} (small : n < 2 ^ 53) :
    -1 ≤ floorLog2 n 1 ∧ floorLog2 n 1 ≤ 52 := by
  have bound : Nat.log2 n ≤ 52 := by
    rcases Nat.eq_zero_or_pos n with rfl | positive
    · decide
    · have := (Nat.log2_lt (Nat.pos_iff_ne_zero.mp positive)).mpr small
      omega
  have one : Nat.log2 1 = 0 := rfl
  unfold floorLog2
  rw [one]
  dsimp only
  split_ifs <;> omega

/-- An integer below `2 ^ 53` is a double. -/
theorem nearest_one {n : Nat} (small : n < 2 ^ 53) :
    ∃ j : Nat, j ≤ 53 ∧ nearest n 1 = ⟨n * 2 ^ j, -(j : Int)⟩ := by
  obtain ⟨low, high⟩ := floorLog2_one small
  have exponent : max (floorLog2 n 1 - 52) (-1074) = -((52 - floorLog2 n 1).toNat : Int) := by
    omega
  refine ⟨(52 - floorLog2 n 1).toNat, by omega, ?_⟩
  unfold nearest
  rw [exponent]
  have zero : (-((52 - floorLog2 n 1).toNat : Int)).toNat = 0 := by omega
  dsimp only
  rw [zero, neg_neg, Int.toNat_natCast, pow_zero, mul_one, halfEven_one]

theorem number_nearest {n : Nat} (small : n < 2 ^ 53) (negative : Bool) :
    (nearest n 1).number negative = .int (if negative then -(n : Int) else n) := by
  obtain ⟨j, few, is⟩ := nearest_one small
  have power : (2 : Nat) ^ j ≤ 2 ^ 53 := Nat.pow_le_pow_right (by decide) few
  have positive : 0 < 2 ^ j := Nat.two_pow_pos j
  have numerator : (nearest n 1).numerator = n * 2 ^ j := by
    have zero : (-(j : Int)).toNat = 0 := by omega
    rw [is, Double.numerator]
    dsimp only
    rw [zero, pow_zero, mul_one]
  have denominator : (nearest n 1).denominator = 2 ^ j := by
    rw [is, Double.denominator]
    dsimp only
    rw [neg_neg, Int.toNat_natCast]
  have finite : ¬ 2 ^ 1024 ≤ n * 2 ^ j := by
    have product : n * 2 ^ j ≤ 2 ^ 53 * 2 ^ 53 := Nat.mul_le_mul small.le power
    have large : 2 ^ 53 * 2 ^ 53 < 2 ^ 1024 := by
      rw [← pow_add]
      exact Nat.pow_lt_pow_right (by decide) (by decide)
    omega
  have quotient : ((n * 2 ^ j : Nat) : Int) / ((2 ^ j : Nat) : Int) = n := by
    rw [← Int.natCast_div, Nat.mul_div_cancel n positive]
  unfold Double.number
  rw [numerator, denominator, if_neg finite, if_pos (Nat.dvd_mul_left _ _), quotient]

/-- The numeral of an integer. -/
def intNumeral (n : Int) : Numeral :=
  ⟨decide (n < 0), Nat.toDigits 10 n.natAbs, [], none⟩

theorem intNumeral_text (n : Int) : (intNumeral n).text = (Int.repr n).toList := by
  cases n with
  | ofNat m =>
      simp [intNumeral, Numeral.text, fractionPart, exponentText, Int.repr, Nat.repr]
  | negSucc m =>
      simp [intNumeral, Numeral.text, fractionPart, exponentText, Int.repr, Nat.repr]

/-- **Integers are read exactly.** -/
theorem Numeral.number_int {n : Int} (small : n.natAbs < 2 ^ 53) :
    (intNumeral n).number = .int n := by
  have digits : Nat.ofDigitChars 10 (Nat.toDigits 10 n.natAbs ++ []) 0 = n.natAbs := by
    rw [List.append_nil]
    exact Nat.ofDigitChars_ten_toDigits
  unfold Numeral.number intNumeral
  dsimp only [List.length_nil]
  rw [digits]
  have unit : scaled n.natAbs (0 - ((0 : Nat) : Int)) = (n.natAbs, 1) := by
    simp [scaled]
  rw [unit, number_nearest small]
  by_cases negative : n < 0
  · rw [decide_eq_true negative, if_pos rfl]
    congr 1
    omega
  · rw [decide_eq_false negative, if_neg (by decide)]
    congr 1
    omega

end Js
