import Knowledger.Checks
import Knowledger.Lib.Der
import Knowledger.Lib.Sha256

/-!
# Block header hashes

The hash of a block header as the block projector computes it: SHA-256 of the number, the
previous hash and the data hash in ASN.1.  `fabricBlockHeaderHash_der` says that the octets are
the distinguished encoding of the three, and that no two headers share them.
-/

namespace Knowledger.Fabric

open Js Der

/-! ## The encoder -/

structure BlockHeader where
  number : Number
  previousHash : List UInt8
  dataHash : List UInt8

def hexValue (c : Char) : Option Nat :=
  if '0' ≤ c ∧ c ≤ '9' then some (c.toNat - 48)
  else if 'a' ≤ c ∧ c ≤ 'f' then some (c.toNat - 87)
  else if 'A' ≤ c ∧ c ≤ 'F' then some (c.toNat - 55)
  else none

/-- `Buffer.from(text, "hex")`, which stops at the first pair that is not hexadecimal. -/
def hexOctets : List Char → List UInt8
  | a :: b :: rest =>
    match hexValue a, hexValue b with
    | some x, some y => UInt8.ofNat (16 * x + y) :: hexOctets rest
    | _, _ => []
  | _ => []

def evenHex (hex : List Char) : List Char := if hex.length % 2 = 1 then '0' :: hex else hex

def unsignedBytes (value : Nat) : List UInt8 := hexOctets (evenHex (Nat.toDigits 16 value))

def derLength (length : Nat) : Except Thrown (List UInt8) :=
  if !isSafeInteger length then throw (.error "ASN.1 length is invalid")
  else if length < 0x80 then return [UInt8.ofNat length]
  else
    let value := unsignedBytes length
    return UInt8.ofNat (0x80 ||| value.length) :: value

def derField (tag : UInt8) (value : List UInt8) : Except Thrown (List UInt8) := do
  return [tag] ++ (← derLength value.length) ++ value

/-- `Number.isSafeInteger` of a number that is not negative. -/
def blockNumber : Number → Option Nat
  | .int n => if isSafeInteger n && 0 ≤ n then some n.toNat else none
  | _ => none

/-- The octets that `fabricBlockHeaderHash` hashes. -/
def fabricBlockHeader (header : BlockHeader) : Except Thrown (List UInt8) := do
  let some number := blockNumber header.number
    | throw (.error "Fabric block number is outside the supported range")
  let bytes := unsignedBytes number
  let integer := if (bytes.head?.getD 0) &&& 0x80 ≠ 0 then 0 :: bytes else bytes
  let body := (← derField 0x02 integer) ++ (← derField 0x04 header.previousHash) ++
    (← derField 0x04 header.dataHash)
  derField 0x30 body

def fabricBlockHeaderHash (header : BlockHeader) : Except Thrown String := do
  let bytes ← fabricBlockHeader header
  return String.ofList (Sha2.hexDigest (bytes.map UInt8.toNat))

/-! ## Octets of a number -/

theorem hexValue_digitChar {n : Nat} (small : n < 16) : hexValue n.digitChar = some n := by
  interval_cases n <;> decide

theorem hexOctets_pair {x y : Nat} (smallX : x < 16) (smallY : y < 16) (rest : List Char) :
    hexOctets (x.digitChar :: y.digitChar :: rest) = UInt8.ofNat (16 * x + y) :: hexOctets rest := by
  rw [hexOctets, hexValue_digitChar smallX, hexValue_digitChar smallY]

theorem evenHex_append_pair (hex : List Char) (a b : Char) :
    evenHex (hex ++ [a, b]) = evenHex hex ++ [a, b] := by
  have parity : (hex ++ [a, b]).length % 2 = hex.length % 2 := by
    rw [List.length_append, List.length_cons, List.length_singleton]
    omega
  rw [evenHex, evenHex, parity]
  split_ifs <;> rfl

theorem toDigits_pair {n : Nat} (large : 256 ≤ n) :
    Nat.toDigits 16 n =
      Nat.toDigits 16 (n / 256) ++ [(n / 16 % 16).digitChar, (n % 16).digitChar] := by
  have next : n / 16 / 16 = n / 256 := Nat.div_div_eq_div_mul n 16 16
  rw [Nat.toDigits_of_base_le (by decide) (by omega : 16 ≤ n),
    Nat.toDigits_of_base_le (by decide) (by omega : 16 ≤ n / 16), next, List.append_assoc]
  rfl

theorem evenHex_toDigits_small {n : Nat} (small : n < 256) :
    evenHex (Nat.toDigits 16 n) = [(n / 16).digitChar, (n % 16).digitChar] := by
  rcases Nat.lt_or_ge n 16 with one | two
  · rw [Nat.toDigits_of_lt_base one, Nat.div_eq_of_lt one, Nat.mod_eq_of_lt one]
    rfl
  · rw [Nat.toDigits_of_base_le (by decide) two, Nat.toDigits_of_lt_base (by omega), evenHex,
      if_neg (by simp)]
    rfl

theorem unsignedBytes_small {n : Nat} (small : n < 256) : unsignedBytes n = [UInt8.ofNat n] := by
  rw [unsignedBytes, evenHex_toDigits_small small, hexOctets_pair (by omega) (by omega),
    Nat.div_add_mod, hexOctets]
  simp

/-- The octets of a number stand before those of any further text. -/
theorem hexOctets_evenHex (n : Nat) (rest : List Char) :
    hexOctets (evenHex (Nat.toDigits 16 n) ++ rest) = unsignedBytes n ++ hexOctets rest := by
  induction n using Nat.strong_induction_on generalizing rest with
  | h n ih =>
      rcases Nat.lt_or_ge n 256 with small | large
      · rw [unsignedBytes_small small, evenHex_toDigits_small small, List.cons_append,
          List.singleton_append, hexOctets_pair (by omega) (by omega), Nat.div_add_mod]
        rfl
      · have smaller : n / 256 < n := by omega
        have pair := hexOctets_pair (by omega : n / 16 % 16 < 16) (by omega : n % 16 < 16)
        rw [unsignedBytes, toDigits_pair large, evenHex_append_pair, List.append_assoc,
          ih _ smaller, ih _ smaller, List.append_assoc]
        change _ ++ hexOctets (_ :: _ :: rest) = _ ++ (hexOctets (_ :: _ :: []) ++ _)
        rw [pair, pair]
        rfl

theorem unsignedBytes_large {n : Nat} (large : 256 ≤ n) :
    unsignedBytes n = unsignedBytes (n / 256) ++ [UInt8.ofNat (n % 256)] := by
  have octet : 16 * (n / 16 % 16) + n % 16 = n % 256 := by omega
  rw [unsignedBytes, toDigits_pair large, evenHex_append_pair, hexOctets_evenHex,
    hexOctets_pair (by omega) (by omega), octet]
  rfl

theorem unsigned_unsignedBytes (n : Nat) : unsigned (unsignedBytes n) = n := by
  induction n using Nat.strong_induction_on with
  | h n ih =>
      rcases Nat.lt_or_ge n 256 with small | large
      · rw [unsignedBytes_small small, unsigned_singleton, toNat_ofNat small]
      · rw [unsignedBytes_large large, unsigned_append, ih _ (by omega), unsigned_singleton,
          toNat_ofNat (by omega), List.length_singleton]
        omega

/-- The first octet is zero for zero only. -/
theorem head_unsignedBytes (n : Nat) : ∃ a rest, unsignedBytes n = a :: rest ∧
    (a.toNat = 0 → n = 0 ∧ rest = []) := by
  induction n using Nat.strong_induction_on with
  | h n ih =>
      rcases Nat.lt_or_ge n 256 with small | large
      · refine ⟨_, [], unsignedBytes_small small, ?_⟩
        intro zero
        rw [toNat_ofNat small] at zero
        exact ⟨zero, rfl⟩
      · obtain ⟨a, rest, shape, positive⟩ := ih (n / 256) (by omega)
        refine ⟨a, rest ++ [UInt8.ofNat (n % 256)], ?_, ?_⟩
        · rw [unsignedBytes_large large, shape, List.cons_append]
        · intro zero
          have none := (positive zero).1
          omega

theorem length_unsignedBytes_le {n k : Nat} (positive : 0 < k) (fits : n < 256 ^ k) :
    (unsignedBytes n).length ≤ k := by
  obtain ⟨a, rest, shape, zero⟩ := head_unsignedBytes n
  rw [shape, List.length_cons]
  by_cases none : a = 0
  · rw [(zero (by rw [none]; rfl)).2, List.length_nil]
    exact positive
  · have least : 256 ^ rest.length ≤ n := by
      calc
        256 ^ rest.length ≤ unsigned (a :: rest) := le_unsigned none
        _ = n := by rw [← shape, unsigned_unsignedBytes]
    exact (Nat.pow_lt_pow_iff_right (by decide)).mp (Nat.lt_of_le_of_lt least fits)

/-! ## Fields -/

theorem isSafeInteger_iff {z : Int} :
    isSafeInteger z = true ↔ -9007199254740991 ≤ z ∧ z ≤ 9007199254740991 := by
  rw [isSafeInteger, Bool.and_eq_true, decide_eq_true_eq, decide_eq_true_eq]
  rfl

theorem derLength_length {n : Nat} (safe : isSafeInteger n = true) :
    ∃ octets, derLength n = .ok octets ∧ Length n octets ∧ octets.length ≤ 8 := by
  rw [derLength, safe]
  by_cases small : n < 0x80
  · exact ⟨_, by rw [if_neg (by decide), if_pos small]; rfl, .short small, by simp⟩
  · have fits : n < 256 ^ 7 := by
      have most := (isSafeInteger_iff.mp safe).2
      omega
    have few := length_unsignedBytes_le (by decide) fits
    have head : 0x80 ||| (unsignedBytes n).length = 128 + (unsignedBytes n).length := by
      have sum := Nat.two_pow_add_eq_or_of_lt (by omega : (unsignedBytes n).length < 2 ^ 7) 1
      exact sum.symm
    obtain ⟨a, rest, shape, zero⟩ := head_unsignedBytes n
    have leading : (unsignedBytes n).head? ≠ some 0 := by
      rw [shape, List.head?_cons]
      intro none
      have noNumber := (zero (by rw [Option.some.inj none]; rfl)).1
      omega
    have long := Length.long (by rw [unsigned_unsignedBytes]; omega) leading (by omega)
    rw [unsigned_unsignedBytes, ← head] at long
    refine ⟨_, ?_, long, ?_⟩
    · rw [if_neg (by decide), if_neg small]
      rfl
    · rw [List.length_cons]
      omega

theorem derLength_ok {n : Nat} {octets : List UInt8} :
    derLength n = .ok octets ↔ isSafeInteger n = true ∧ Length n octets := by
  constructor
  · intro run
    by_cases safe : isSafeInteger n = true
    · obtain ⟨made, run', length, -⟩ := derLength_length safe
      cases run.symm.trans run'
      exact ⟨safe, length⟩
    · simp [derLength, safe] at run
  · rintro ⟨safe, length⟩
    obtain ⟨made, run, length', -⟩ := derLength_length safe
    rw [run, length.unique length']

theorem field_exists (tag : UInt8) {contents : List UInt8}
    (safe : isSafeInteger contents.length = true) :
    ∃ octets, Field tag contents octets ∧ octets.length ≤ contents.length + 9 := by
  obtain ⟨length, -, isLength, few⟩ := derLength_length safe
  refine ⟨_, ⟨length, isLength, rfl⟩, ?_⟩
  rw [List.length_cons, List.length_append]
  omega

theorem derField_ok {tag : UInt8} {value octets : List UInt8} :
    derField tag value = .ok octets ↔
      isSafeInteger value.length = true ∧ Field tag value octets := by
  constructor
  · intro run
    rcases lengthRun : derLength value.length with thrown | length
    · rw [derField, lengthRun] at run
      cases run
    · obtain ⟨safe, isLength⟩ := derLength_ok.mp lengthRun
      rw [derField, lengthRun] at run
      cases run
      exact ⟨safe, length, isLength, by simp⟩
  · rintro ⟨safe, length, isLength, rfl⟩
    rw [derField, derLength_ok.mpr ⟨safe, isLength⟩]
    simp [pure, Except.pure, bind, Except.bind]

theorem and_highBit (a : UInt8) : a &&& 0x80 ≠ 0 ↔ 128 ≤ a.toNat := by
  have small : a.toNat < 256 := a.toNat_lt
  have bit : a.toNat &&& 2 ^ 7 = (a.toNat.testBit 7).toNat * 2 ^ 7 := Nat.and_two_pow _ _
  rw [Nat.testBit_eq_decide_div_mod_eq] at bit
  rw [Ne, ← UInt8.toNat_inj, UInt8.toNat_and]
  change ¬ a.toNat &&& 2 ^ 7 = 0 ↔ _
  rw [bit]
  by_cases high : 128 ≤ a.toNat
  · have one : decide (a.toNat / 2 ^ 7 % 2 = 1) = true := decide_eq_true (by omega)
    simp only [one, high, Bool.toNat_true]
    decide
  · have zero : decide (a.toNat / 2 ^ 7 % 2 = 1) = false := decide_eq_false (by omega)
    simp only [zero, high, Bool.toNat_false]
    decide

/-- The contents of the number's field: a zero octet keeps a high first bit from being a sign. -/
theorem integer_contents (n : Nat) :
    ∃ contents, (if ((unsignedBytes n).head?.getD 0) &&& 0x80 ≠ 0 then 0 :: unsignedBytes n
        else unsignedBytes n) = contents ∧ Shortest contents ∧ signed contents = n ∧
      contents.length ≤ (unsignedBytes n).length + 1 := by
  obtain ⟨a, rest, shape, zero⟩ := head_unsignedBytes n
  have spelled : unsigned (a :: rest) = n := by rw [← shape, unsigned_unsignedBytes]
  refine ⟨_, rfl, ?_⟩
  rw [shape, List.head?_cons, Option.getD_some]
  by_cases high : 128 ≤ a.toNat
  · rw [if_pos ((and_highBit a).mpr high)]
    refine ⟨⟨fun _ => high, by simp⟩, ?_, by simp⟩
    rw [signed_cons, spelled]
    simp [signOctet]
  · rw [if_neg (fun bit => high ((and_highBit a).mp bit))]
    refine ⟨?_, ?_, by simp⟩
    · rcases rest with - | ⟨b, rest⟩
      · trivial
      · refine ⟨fun none => ?_, by omega⟩
        simpa using (zero none).2
    · rw [signed, if_pos (by omega), spelled]

/-! ## The encoding of a header -/

theorem blockNumber_eq {number : Number} {n : Nat} :
    blockNumber number = some n ↔ number = .int n ∧ n ≤ 9007199254740991 := by
  rcases number with z | - | - | -
  · rw [blockNumber, Number.int.injEq]
    split_ifs with safe
    · rw [Bool.and_eq_true, decide_eq_true_eq, isSafeInteger_iff] at safe
      rw [Option.some.injEq]
      omega
    · rw [Bool.and_eq_true, decide_eq_true_eq, isSafeInteger_iff] at safe
      simp only [false_iff]
      omega
  all_goals simp [blockNumber]

/-- The value that the hashed octets encode. -/
def BlockHeader.items (header : BlockHeader) (number : Nat) : List Node :=
  [.integer number, .octets header.previousHash, .octets header.dataHash]

theorem encodesAll_items {n : Nat} {header : BlockHeader} {body : List UInt8} :
    EncodesAll (header.items n) body ↔ ∃ integer previous data,
      Encodes (.integer n) integer ∧ Field 0x04 header.previousHash previous ∧
        Field 0x04 header.dataHash data ∧ body = integer ++ previous ++ data := by
  constructor
  · intro all
    rcases all with - | ⟨integer, others⟩
    rcases others with - | ⟨previous, others⟩
    rcases others with - | ⟨data, others⟩
    cases others
    rcases previous with - | previous | -
    rcases data with - | data | -
    exact ⟨_, _, _, integer, previous, data, by simp⟩
  · rintro ⟨integer, previous, data, first, second, third, rfl⟩
    have all := EncodesAll.cons first (.cons (.octets second) (.cons (.octets third) .nil))
    rwa [List.append_nil, ← List.append_assoc] at all

theorem safe_contents {tag : UInt8} {contents octets : List UInt8} {length : Nat}
    (field : Field tag contents octets) (inside : octets.length ≤ length)
    (safe : isSafeInteger length = true) : isSafeInteger contents.length = true := by
  have least := field.length_le
  rw [isSafeInteger_iff] at safe ⊢
  omega

/-- The header's octets are the encoding of its three fields; there are none when the number is
outside the range or the contents are longer than a length can say. -/
theorem fabricBlockHeader_ok {header : BlockHeader} {octets : List UInt8} :
    fabricBlockHeader header = .ok octets ↔ ∃ n body, blockNumber header.number = some n ∧
      EncodesAll (header.items n) body ∧ isSafeInteger body.length = true ∧
      Field 0x30 body octets := by
  rw [fabricBlockHeader]
  rcases inRange : blockNumber header.number with - | n
  · simp [throw, throwThe, MonadExceptOf.throw]
  obtain ⟨contents, made, shortest, spelled, -⟩ := integer_contents n
  dsimp only
  rw [made]
  constructor
  · intro run
    obtain ⟨integer, integerRun, run⟩ := bind_ok.mp run
    obtain ⟨previous, previousRun, run⟩ := bind_ok.mp run
    obtain ⟨data, dataRun, run⟩ := bind_ok.mp run
    obtain ⟨-, integerField⟩ := derField_ok.mp integerRun
    obtain ⟨-, previousField⟩ := derField_ok.mp previousRun
    obtain ⟨-, dataField⟩ := derField_ok.mp dataRun
    obtain ⟨safe, whole⟩ := derField_ok.mp run
    have first : Encodes (.integer n) integer := spelled ▸ .integer shortest integerField
    exact ⟨n, _, rfl, encodesAll_items.mpr ⟨_, _, _, first, previousField, dataField, rfl⟩, safe,
      whole⟩
  · rintro ⟨n', body, same, all, safe, whole⟩
    cases same
    obtain ⟨integer, previous, data, first, previousField, dataField, rfl⟩ :=
      encodesAll_items.mp all
    generalize value : (n : Int) = z at first
    rcases first with ⟨shortest', integerField⟩ | - | -
    rw [signed_unique shortest' shortest (value.symm.trans spelled.symm)] at integerField
    have lengths : integer.length ≤ (integer ++ previous ++ data).length ∧
        previous.length ≤ (integer ++ previous ++ data).length ∧
        data.length ≤ (integer ++ previous ++ data).length := by
      simp only [List.length_append]
      omega
    rw [derField_ok.mpr ⟨safe_contents integerField lengths.1 safe, integerField⟩,
      derField_ok.mpr ⟨safe_contents previousField lengths.2.1 safe, previousField⟩,
      derField_ok.mpr ⟨safe_contents dataField lengths.2.2 safe, dataField⟩]
    exact derField_ok.mpr ⟨safe, whole⟩

/-! ## Results -/

/-- The value that the hashed octets encode. -/
def BlockHeader.node (header : BlockHeader) (number : Nat) : Node := .sequence (header.items number)

theorem fabricBlockHeader_encodes {header : BlockHeader} {octets : List UInt8}
    (run : fabricBlockHeader header = .ok octets) :
    ∃ n : Nat, header.number = .int n ∧ Encodes (header.node n) octets := by
  obtain ⟨n, body, inRange, all, -, whole⟩ := fabricBlockHeader_ok.mp run
  exact ⟨n, (blockNumber_eq.mp inRange).1, .sequence all whole⟩

theorem fabricBlockHeader_inj {a b : BlockHeader} {octets : List UInt8}
    (left : fabricBlockHeader a = .ok octets) (right : fabricBlockHeader b = .ok octets) :
    a = b := by
  obtain ⟨n, number, encodes⟩ := fabricBlockHeader_encodes left
  obtain ⟨m, number', encodes'⟩ := fabricBlockHeader_encodes right
  have same := (decode_iff.mpr encodes).symm.trans (decode_iff.mpr encodes')
  rcases a with ⟨_, previous, data⟩
  rcases b with ⟨_, previous', data'⟩
  simp only [BlockHeader.node, BlockHeader.items, Option.some.injEq, Node.sequence.injEq,
    List.cons.injEq, Node.integer.injEq, Node.octets.injEq, and_true] at same
  obtain ⟨integers, previouses, datas⟩ := same
  dsimp only at number number'
  rw [number, number', integers, previouses, datas]

/-- There are octets for every number in the range, unless the contents are too long for a
length that the encoder accepts. -/
theorem fabricBlockHeader_exists {header : BlockHeader} {n : Nat}
    (number : header.number = .int n) (range : n ≤ 9007199254740991)
    (fits : header.previousHash.length + header.dataHash.length + 35 ≤ 9007199254740991) :
    ∃ octets, fabricBlockHeader header = .ok octets := by
  obtain ⟨contents, -, shortest, spelled, few⟩ := integer_contents n
  have bytes : (unsignedBytes n).length ≤ 7 :=
    length_unsignedBytes_le (by decide) (by omega : n < 256 ^ 7)
  obtain ⟨integer, integerField, atMost⟩ :=
    field_exists 0x02 (isSafeInteger_iff.mpr (by omega) : isSafeInteger contents.length = true)
  obtain ⟨previous, previousField, atMost'⟩ := field_exists 0x04
    (isSafeInteger_iff.mpr (by omega) : isSafeInteger header.previousHash.length = true)
  obtain ⟨data, dataField, atMost''⟩ := field_exists 0x04
    (isSafeInteger_iff.mpr (by omega) : isSafeInteger header.dataHash.length = true)
  have safe : isSafeInteger (integer ++ previous ++ data).length = true := by
    rw [isSafeInteger_iff]
    simp only [List.length_append]
    omega
  obtain ⟨octets, whole, -⟩ := field_exists 0x30 safe
  have first : Encodes (.integer n) integer := spelled ▸ .integer shortest integerField
  have all : EncodesAll (header.items n) (integer ++ previous ++ data) :=
    encodesAll_items.mpr ⟨_, _, _, first, previousField, dataField, rfl⟩
  exact ⟨octets, fabricBlockHeader_ok.mpr ⟨n, _, blockNumber_eq.mpr ⟨number, range⟩, all, safe,
    whole⟩⟩

/-- What is hashed for a header is the one encoding of its number and two hashes, reads back as
these, and is not hashed for another header. -/
theorem fabricBlockHeaderHash_der (header : BlockHeader) (n : Nat)
    (number : header.number = .int n) (range : n ≤ 9007199254740991) :
    (∀ digest, fabricBlockHeaderHash header = .ok digest ↔ ∃ octets,
      fabricBlockHeader header = .ok octets ∧
        digest = String.ofList (Sha2.hexDigest (octets.map UInt8.toNat))) ∧
    (header.previousHash.length + header.dataHash.length + 35 ≤ 9007199254740991 →
      ∃ octets, fabricBlockHeader header = .ok octets) ∧
    ∀ octets, fabricBlockHeader header = .ok octets →
      Encodes (header.node n) octets ∧
      (∀ other, Encodes (header.node n) other → other = octets) ∧
      decode octets = some (header.node n) ∧
      ∀ other, fabricBlockHeader other = .ok octets → other = header := by
  refine ⟨?_, fabricBlockHeader_exists number range, ?_⟩
  · intro digest
    rw [fabricBlockHeaderHash, bind_ok]
    simp only [pure, Except.pure, Except.ok.injEq, eq_comm]
  · intro octets run
    obtain ⟨m, number', encodes⟩ := fabricBlockHeader_encodes run
    have same : m = n := by
      rw [number, Number.int.injEq] at number'
      omega
    subst same
    exact ⟨encodes, fun other encodes' => encodes'.unique encodes, decode_iff.mpr encodes,
      fun other run' => fabricBlockHeader_inj run' run⟩

/-! ## A block -/

namespace Demo

def header : BlockHeader where
  number := .int 128
  previousHash := [1, 2]
  dataHash := []

/-- A number whose first octet has its high bit set. -/
theorem fabricBlockHeaderHash_der_header : ∃ octets, fabricBlockHeader header = .ok octets ∧
    decode octets = some (.sequence [.integer 128, .octets [1, 2], .octets []]) := by
  obtain ⟨-, exist, facts⟩ := fabricBlockHeaderHash_der header 128 rfl (by decide)
  obtain ⟨octets, run⟩ := exist (by decide)
  exact ⟨octets, run, (facts octets run).2.2.1⟩

end Demo

end Knowledger.Fabric
