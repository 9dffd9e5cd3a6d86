import Mathlib

/-!
# SHA-256

The hash function of FIPS 180-4 on octets, with words as natural numbers below `2 ^ 32`, and
the hexadecimal text of a digest: 64 characters, each a lower-case hexadecimal digit.
-/

namespace Sha2

/-! ## Words -/

/-- The modulus of a word. -/
def size : Nat := 4294967296

def rotr (n x : Nat) : Nat := (x >>> n ||| x <<< (32 - n)) % size

def bigSigma0 (x : Nat) : Nat := rotr 2 x ^^^ rotr 13 x ^^^ rotr 22 x
def bigSigma1 (x : Nat) : Nat := rotr 6 x ^^^ rotr 11 x ^^^ rotr 25 x
def smallSigma0 (x : Nat) : Nat := rotr 7 x ^^^ rotr 18 x ^^^ x >>> 3
def smallSigma1 (x : Nat) : Nat := rotr 17 x ^^^ rotr 19 x ^^^ x >>> 10

def choose (x y z : Nat) : Nat := x &&& y ^^^ (size - 1 ^^^ x) &&& z
def majority (x y z : Nat) : Nat := x &&& y ^^^ x &&& z ^^^ y &&& z

def constants : List Nat := [
  0x428a2f98, 0x71374491, 0xb5c0fbcf, 0xe9b5dba5, 0x3956c25b, 0x59f111f1, 0x923f82a4, 0xab1c5ed5,
  0xd807aa98, 0x12835b01, 0x243185be, 0x550c7dc3, 0x72be5d74, 0x80deb1fe, 0x9bdc06a7, 0xc19bf174,
  0xe49b69c1, 0xefbe4786, 0x0fc19dc6, 0x240ca1cc, 0x2de92c6f, 0x4a7484aa, 0x5cb0a9dc, 0x76f988da,
  0x983e5152, 0xa831c66d, 0xb00327c8, 0xbf597fc7, 0xc6e00bf3, 0xd5a79147, 0x06ca6351, 0x14292967,
  0x27b70a85, 0x2e1b2138, 0x4d2c6dfc, 0x53380d13, 0x650a7354, 0x766a0abb, 0x81c2c92e, 0x92722c85,
  0xa2bfe8a1, 0xa81a664b, 0xc24b8b70, 0xc76c51a3, 0xd192e819, 0xd6990624, 0xf40e3585, 0x106aa070,
  0x19a4c116, 0x1e376c08, 0x2748774c, 0x34b0bcb5, 0x391c0cb3, 0x4ed8aa4a, 0x5b9cca4f, 0x682e6ff3,
  0x748f82ee, 0x78a5636f, 0x84c87814, 0x8cc70208, 0x90befffa, 0xa4506ceb, 0xbef9a3f7, 0xc67178f2]

/-! ## Compression -/

/-- The chaining state. -/
structure Hash where
  (a b c d e f g h : Nat)

def Hash.initial : Hash where
  a := 0x6a09e667
  b := 0xbb67ae85
  c := 0x3c6ef372
  d := 0xa54ff53a
  e := 0x510e527f
  f := 0x9b05688c
  g := 0x1f83d9ab
  h := 0x5be0cd19

def Hash.add (s t : Hash) : Hash :=
  ⟨(s.a + t.a) % size, (s.b + t.b) % size, (s.c + t.c) % size, (s.d + t.d) % size,
    (s.e + t.e) % size, (s.f + t.f) % size, (s.g + t.g) % size, (s.h + t.h) % size⟩

/-- `n` words of the message schedule from a window of 16. -/
def schedule : Nat → List Nat → List Nat
  | 0, _ => []
  | _, [] => []
  | n + 1, w :: rest =>
      w :: schedule n (rest ++ [(w + smallSigma0 (rest.getD 0 0) + rest.getD 8 0 +
        smallSigma1 (rest.getD 13 0)) % size])

def round (s : Hash) (constant word : Nat) : Hash :=
  let t := s.h + bigSigma1 s.e + choose s.e s.f s.g + constant + word
  ⟨(t + bigSigma0 s.a + majority s.a s.b s.c) % size, s.a, s.b, s.c, (s.d + t) % size, s.e, s.f,
    s.g⟩

def compress (s : Hash) (block : List Nat) : Hash :=
  s.add ((constants.zip (schedule 64 block)).foldl (fun s k => round s k.1 k.2) s)

/-! ## Messages -/

/-- The octets of `n` in `count` places, the first the most significant. -/
def octets : Nat → Nat → List Nat
  | 0, _ => []
  | count + 1, n => n / 256 ^ count % 256 :: octets count n

def pad (message : List Nat) : List Nat :=
  message ++ 0x80 :: List.replicate ((119 - message.length % 64) % 64) 0 ++
    octets 8 (8 * message.length)

def words : List Nat → List Nat
  | a :: b :: c :: d :: rest => (a * 16777216 + b * 65536 + c * 256 + d) :: words rest
  | _ => []

/-- The blocks of 16 words, at most `n` of them. -/
def blocks : Nat → List Nat → List (List Nat)
  | 0, _ => []
  | n + 1, ws => ws.take 16 :: blocks n (ws.drop 16)

def sha256 (message : List Nat) : Hash :=
  let ws := words (pad message)
  (blocks (ws.length / 16) ws).foldl compress Hash.initial

/-! ## Text -/

/-- The last `count` hexadecimal digits of `n`. -/
def hexDigits : Nat → Nat → List Char
  | 0, _ => []
  | count + 1, n => hexDigits count (n / 16) ++ [Nat.digitChar (n % 16)]

def Hash.hex (s : Hash) : List Char :=
  [s.a, s.b, s.c, s.d, s.e, s.f, s.g, s.h].flatMap (hexDigits 8)

def hexDigest (message : List Nat) : List Char := (sha256 message).hex

theorem length_hexDigits (count n : Nat) : (hexDigits count n).length = count := by
  induction count generalizing n with
  | zero => rfl
  | succ count ih => simp [hexDigits, ih]

theorem hexDigits_hex {count n : Nat} {c : Char} (mem : c ∈ hexDigits count n) :
    c.isDigit = true ∨ ('a' ≤ c ∧ c ≤ 'f') := by
  induction count generalizing n with
  | zero => cases mem
  | succ count ih =>
      rcases List.mem_append.mp mem with before | last
      · exact ih before
      · obtain rfl := List.mem_singleton.mp last
        have small : n % 16 < 16 := Nat.mod_lt _ (by decide)
        generalize n % 16 = digit at small
        interval_cases digit <;> decide

theorem length_hexDigest (message : List Nat) : (hexDigest message).length = 64 := by
  simp [hexDigest, Hash.hex, length_hexDigits]

theorem hexDigest_hex {message : List Nat} {c : Char} (mem : c ∈ hexDigest message) :
    c.isDigit = true ∨ ('a' ≤ c ∧ c ≤ 'f') := by
  obtain ⟨word, _, inside⟩ := List.mem_flatMap.mp mem
  exact hexDigits_hex inside

/-- The digest of `abc`. -/
example : hexDigest [97, 98, 99] =
    "ba7816bf8f01cfea414140de5dae2223b00361a396177a9cb410ff61f20015ad".toList := by
  decide +kernel

end Sha2
