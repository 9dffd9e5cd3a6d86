import Mathlib

/-!
# Distinguished encoding of integers, octet strings and sequences

The rules of X.690 for three types: a tag, a definite length in its shortest form, and the
contents.  `Encodes` says which octets encode a value.  `decode` reads them back, and
`decode_iff` says that it accepts exactly the encodings; `Encodes.unique` says that a value has
one encoding.
-/

namespace Der

/-! ## Numbers in octets -/

/-- The number that the octets spell, the most significant first. -/
def unsigned (octets : List UInt8) : Nat := Nat.ofDigits 256 (octets.map UInt8.toNat).reverse

/-- The number that the octets spell in two's complement. -/
def signed : List UInt8 → Int
  | [] => 0
  | a :: rest =>
    if a.toNat < 128 then unsigned (a :: rest)
    else unsigned (a :: rest) - 256 ^ (rest.length + 1)

@[simp] theorem unsigned_nil : unsigned [] = 0 := rfl

theorem unsigned_append (a b : List UInt8) :
    unsigned (a ++ b) = unsigned a * 256 ^ b.length + unsigned b := by
  rw [unsigned, unsigned, unsigned, List.map_append, List.reverse_append, Nat.ofDigits_append,
    List.length_reverse, List.length_map]
  ring

@[simp] theorem unsigned_singleton (a : UInt8) : unsigned [a] = a.toNat := by
  simp [unsigned, Nat.ofDigits]

theorem unsigned_cons (a : UInt8) (rest : List UInt8) :
    unsigned (a :: rest) = a.toNat * 256 ^ rest.length + unsigned rest := by
  rw [← List.singleton_append, unsigned_append, unsigned_singleton]

theorem unsigned_lt (octets : List UInt8) : unsigned octets < 256 ^ octets.length := by
  induction octets with
  | nil => decide
  | cons a rest ih =>
      have small : a.toNat < 256 := a.toNat_lt
      rw [unsigned_cons, List.length_cons, pow_succ]
      nlinarith

/-- Octets of one length that spell one number are the same. -/
theorem unsigned_inj {a b : List UInt8} (length : a.length = b.length)
    (same : unsigned a = unsigned b) : a = b := by
  induction a generalizing b with
  | nil => exact (List.length_eq_zero_iff.mp length.symm).symm
  | cons x a ih =>
      rcases b with - | ⟨y, b⟩
      · simp at length
      · have lengths : a.length = b.length := by simpa using length
        have smallA := unsigned_lt a
        have smallB := unsigned_lt b
        rw [unsigned_cons, unsigned_cons, lengths] at same
        rw [lengths] at smallA
        have heads : x.toNat = y.toNat := by
          rcases Nat.lt_trichotomy x.toNat y.toNat with less | equal | more
          · nlinarith
          · exact equal
          · nlinarith
        have tails : unsigned a = unsigned b := by
          rw [heads] at same
          omega
        rw [UInt8.toNat_inj.mp heads, ih lengths tails]

theorem toNat_ofNat {n : Nat} (small : n < 256) : (UInt8.ofNat n).toNat = n := by
  rw [UInt8.toNat_ofNat', Nat.mod_eq_of_lt small]

/-- Octets without a leading zero are as long as their number needs. -/
theorem le_unsigned {a : UInt8} {rest : List UInt8} (leading : a ≠ 0) :
    256 ^ rest.length ≤ unsigned (a :: rest) := by
  have positive : 1 ≤ a.toNat := by
    rcases Nat.eq_zero_or_pos a.toNat with zero | positive
    · exact absurd (UInt8.toNat_inj.mp zero) leading
    · exact positive
  have power : 0 < 256 ^ rest.length := Nat.pow_pos (by decide)
  rw [unsigned_cons]
  nlinarith

theorem length_le_of_unsigned {a b : List UInt8} (leading : b.head? ≠ some 0)
    (same : unsigned a = unsigned b) : b.length ≤ a.length := by
  rcases b with - | ⟨y, b⟩
  · exact Nat.zero_le _
  · have least : 256 ^ b.length ≤ unsigned (y :: b) := le_unsigned (by simpa using leading)
    have bound : 256 ^ b.length < 256 ^ a.length := by
      calc
        256 ^ b.length ≤ unsigned a := same ▸ least
        _ < 256 ^ a.length := unsigned_lt a
    have shorter : b.length < a.length := (Nat.pow_lt_pow_iff_right (by decide)).mp bound
    rw [List.length_cons]
    omega

/-- A number is spelled without a leading zero in one way. -/
theorem unsigned_unique {a b : List UInt8} (leadingA : a.head? ≠ some 0)
    (leadingB : b.head? ≠ some 0) (same : unsigned a = unsigned b) : a = b := by
  apply unsigned_inj
  · have below := length_le_of_unsigned leadingB same
    have above := length_le_of_unsigned leadingA same.symm
    omega
  · exact same

/-! ## Lengths -/

/-- The octets of a definite length: one octet below 128, else the number of octets and the
octets themselves, without a leading zero. -/
inductive Length : Nat → List UInt8 → Prop
  | short {n : Nat} (small : n < 128) : Length n [UInt8.ofNat n]
  | long {octets : List UInt8} (large : 128 ≤ unsigned octets) (leading : octets.head? ≠ some 0)
      (few : octets.length < 127) :
      Length (unsigned octets) (UInt8.ofNat (128 + octets.length) :: octets)

def readLength : List UInt8 → Option (Nat × List UInt8)
  | [] => none
  | a :: rest =>
    if a.toNat < 128 then some (a.toNat, rest)
    else
      let count := a.toNat - 128
      let octets := rest.take count
      if octets.length = count ∧ count < 127 ∧ octets.head? ≠ some 0 ∧ 128 ≤ unsigned octets then
        some (unsigned octets, rest.drop count)
      else none

theorem Length.read {n : Nat} {octets : List UInt8} (length : Length n octets)
    (rest : List UInt8) : readLength (octets ++ rest) = some (n, rest) := by
  rcases length with small | ⟨large, leading, few⟩
  · have head : (UInt8.ofNat n).toNat = n := toNat_ofNat (by omega)
    rw [List.singleton_append, readLength, head, if_pos small]
  · rename_i octets
    have head : (UInt8.ofNat (128 + octets.length)).toNat = 128 + octets.length :=
      toNat_ofNat (by omega)
    have notSmall : ¬ 128 + octets.length < 128 := by omega
    rw [List.cons_append, readLength, head, if_neg notSmall, Nat.add_sub_cancel_left]
    dsimp only
    rw [List.take_left', List.drop_left', if_pos ⟨rfl, few, leading, large⟩] <;> rfl

theorem readLength_sound {octets rest : List UInt8} {n : Nat}
    (read : readLength octets = some (n, rest)) :
    ∃ length, Length n length ∧ octets = length ++ rest := by
  rcases octets with - | ⟨a, after⟩
  · simp [readLength] at read
  · rw [readLength] at read
    dsimp only at read
    split_ifs at read with small long
    · simp only [Option.some.injEq, Prod.mk.injEq] at read
      obtain ⟨rfl, rfl⟩ := read
      refine ⟨[a], ?_, rfl⟩
      have short := Length.short small
      rwa [UInt8.ofNat_toNat] at short
    · simp only [Option.some.injEq, Prod.mk.injEq] at read
      obtain ⟨rfl, rfl⟩ := read
      obtain ⟨count, few, leading, large⟩ := long
      refine ⟨a :: after.take (a.toNat - 128), ?_, by simp⟩
      have head : UInt8.ofNat (128 + (after.take (a.toNat - 128)).length) = a := by
        rw [count, Nat.add_sub_cancel' (by omega), UInt8.ofNat_toNat]
      have made := Length.long large leading (by omega)
      rwa [head] at made

theorem Length.unique {n : Nat} {a b : List UInt8} (left : Length n a) (right : Length n b) :
    a = b := by
  rcases left with small | ⟨large, leading, few⟩
  · rcases right with - | ⟨large', -, -⟩
    · rfl
    · omega
  · generalize number : unsigned _ = n at right
    rcases right with small | ⟨large', leading', few'⟩
    · omega
    · rw [unsigned_unique leading leading' number]

/-! ## Integers -/

/-- The contents of an integer: no shorter octets have the same sign and spell the same number. -/
def Shortest : List UInt8 → Prop
  | [] => False
  | [_] => True
  | a :: b :: _ => (a.toNat = 0 → 128 ≤ b.toNat) ∧ (a.toNat = 255 → b.toNat < 128)

instance : DecidablePred Shortest
  | [] => inferInstanceAs (Decidable False)
  | [_] => inferInstanceAs (Decidable True)
  | a :: b :: _ =>
    inferInstanceAs (Decidable ((a.toNat = 0 → 128 ≤ b.toNat) ∧ (a.toNat = 255 → b.toNat < 128)))

/-- The first octet of a number in two's complement. -/
def signOctet (a : UInt8) : Int := if a.toNat < 128 then a.toNat else a.toNat - 256

theorem signOctet_bounds (a : UInt8) : -128 ≤ signOctet a ∧ signOctet a ≤ 127 := by
  have small : a.toNat < 256 := a.toNat_lt
  rw [signOctet]
  split_ifs <;> omega

theorem signed_cons (a : UInt8) (rest : List UInt8) :
    signed (a :: rest) = signOctet a * 256 ^ rest.length + unsigned rest := by
  have spelled : (unsigned (a :: rest) : Int) = a.toNat * 256 ^ rest.length + unsigned rest := by
    exact_mod_cast unsigned_cons a rest
  rw [signed, signOctet]
  split_ifs
  · exact spelled
  · rw [spelled, pow_succ]
    ring

theorem signed_bounds (a : UInt8) (rest : List UInt8) :
    -(128 * 256 ^ rest.length : Int) ≤ signed (a :: rest) ∧
      signed (a :: rest) < 128 * 256 ^ rest.length := by
  obtain ⟨least, most⟩ := signOctet_bounds a
  have below : (unsigned rest : Int) < 256 ^ rest.length := by exact_mod_cast unsigned_lt rest
  rw [signed_cons]
  constructor <;> nlinarith

/-- Shortest contents of two octets and more spell a number that does not fit into one less. -/
theorem Shortest.outside {a b : UInt8} {rest : List UInt8} (shortest : Shortest (a :: b :: rest)) :
    signed (a :: b :: rest) < -(128 * 256 ^ rest.length : Int) ∨
      128 * 256 ^ rest.length ≤ signed (a :: b :: rest) := by
  obtain ⟨positive, negative⟩ := shortest
  have smallA : a.toNat < 256 := a.toNat_lt
  have smallB : b.toNat < 256 := b.toNat_lt
  have below : (unsigned rest : Int) < 256 ^ rest.length := by exact_mod_cast unsigned_lt rest
  have spelled : (unsigned (b :: rest) : Int) = b.toNat * 256 ^ rest.length + unsigned rest := by
    exact_mod_cast unsigned_cons b rest
  have split : signed (a :: b :: rest) =
      (signOctet a * 256 + b.toNat) * 256 ^ rest.length + unsigned rest := by
    rw [signed_cons, spelled, List.length_cons, pow_succ]
    ring
  have two : signOctet a * 256 + b.toNat < -128 ∨ 128 ≤ signOctet a * 256 + b.toNat := by
    rw [signOctet]
    split_ifs <;> omega
  rw [split]
  rcases two with low | high
  · left
    nlinarith
  · right
    nlinarith

theorem Shortest.length_le {a b : List UInt8} (shortest : Shortest b) (ne : a ≠ [])
    (same : signed a = signed b) : b.length ≤ a.length := by
  rcases a with - | ⟨x, a⟩
  · exact absurd rfl ne
  rcases b with - | ⟨y, - | ⟨z, b⟩⟩
  · exact shortest.elim
  · simp
  · by_contra longer
    have shorter : a.length ≤ b.length := by
      simp only [List.length_cons] at longer
      omega
    have powers : (256 : Int) ^ a.length ≤ 256 ^ b.length := pow_le_pow_right₀ (by decide) shorter
    obtain ⟨least, most⟩ := signed_bounds x a
    rw [same] at least most
    rcases shortest.outside with low | high
    · omega
    · omega

/-- An integer has one shortest contents. -/
theorem signed_unique {a b : List UInt8} (left : Shortest a) (right : Shortest b)
    (same : signed a = signed b) : a = b := by
  rcases a with - | ⟨x, a⟩
  · exact left.elim
  rcases b with - | ⟨y, b⟩
  · exact right.elim
  have lengths : (x :: a).length = (y :: b).length := by
    have below := right.length_le (List.cons_ne_nil x a) same
    have above := left.length_le (List.cons_ne_nil y b) same.symm
    omega
  apply unsigned_inj lengths
  have short : a.length = b.length := by simpa using lengths
  have smallA := unsigned_lt (x :: a)
  have smallB := unsigned_lt (y :: b)
  rw [lengths] at smallA
  rw [List.length_cons] at smallA smallB
  rw [signed, signed, short] at same
  zify at smallA smallB ⊢
  split_ifs at same <;> omega

/-! ## Values -/

inductive Node
  | integer (value : Int)
  | octets (contents : List UInt8)
  | sequence (items : List Node)

/-- A tag, the length of the contents, and the contents. -/
def Field (tag : UInt8) (contents octets : List UInt8) : Prop :=
  ∃ length, Length contents.length length ∧ octets = tag :: (length ++ contents)

mutual

/-- The octets are the distinguished encoding of the value. -/
inductive Encodes : Node → List UInt8 → Prop
  | integer {contents octets : List UInt8} (shortest : Shortest contents)
      (field : Field 0x02 contents octets) : Encodes (.integer (signed contents)) octets
  | octets {contents octets : List UInt8} (field : Field 0x04 contents octets) :
      Encodes (.octets contents) octets
  | sequence {items : List Node} {contents octets : List UInt8} (all : EncodesAll items contents)
      (field : Field 0x30 contents octets) : Encodes (.sequence items) octets

inductive EncodesAll : List Node → List UInt8 → Prop
  | nil : EncodesAll [] []
  | cons {item : Node} {items : List Node} {a b : List UInt8} (first : Encodes item a)
      (others : EncodesAll items b) : EncodesAll (item :: items) (a ++ b)

end

theorem Field.unique {tag : UInt8} {contents a b : List UInt8} (left : Field tag contents a)
    (right : Field tag contents b) : a = b := by
  obtain ⟨length, isLength, rfl⟩ := left
  obtain ⟨length', isLength', rfl⟩ := right
  rw [isLength.unique isLength']

mutual

/-- A value has one encoding. -/
theorem Encodes.unique {node : Node} {a b : List UInt8} (left : Encodes node a)
    (right : Encodes node b) : a = b := by
  rcases left with ⟨shortest, field⟩ | field | ⟨all, field⟩
  · generalize number : signed _ = value at right
    rcases right with ⟨shortest', field'⟩ | - | -
    rw [signed_unique shortest shortest' number] at field
    exact field.unique field'
  · rcases right with - | field' | -
    exact field.unique field'
  · rcases right with - | - | ⟨all', field'⟩
    rw [all.unique all'] at field
    exact field.unique field'

theorem EncodesAll.unique {items : List Node} {a b : List UInt8} (left : EncodesAll items a)
    (right : EncodesAll items b) : a = b := by
  rcases left with - | ⟨first, others⟩
  · rcases right
    rfl
  · rcases right with - | ⟨first', others'⟩
    rw [first.unique first', others.unique others']

end

/-! ## Reading -/

def readField : List UInt8 → Option (UInt8 × List UInt8 × List UInt8)
  | [] => none
  | tag :: rest =>
    match readLength rest with
    | none => none
    | some (count, rest) =>
      if count ≤ rest.length then some (tag, rest.take count, rest.drop count) else none

mutual

/-- The first value of the octets and the octets behind it. -/
def read : Nat → List UInt8 → Option (Node × List UInt8)
  | 0, _ => none
  | fuel + 1, octets =>
    match readField octets with
    | none => none
    | some (tag, contents, rest) =>
      if tag = 0x02 then
        if Shortest contents then some (.integer (signed contents), rest) else none
      else if tag = 0x04 then some (.octets contents, rest)
      else if tag = 0x30 then (readAll fuel contents).map fun items => (.sequence items, rest)
      else none

def readAll : Nat → List UInt8 → Option (List Node)
  | 0, _ => none
  | fuel + 1, octets =>
    if octets = [] then some []
    else
      match read fuel octets with
      | none => none
      | some (item, rest) => (readAll fuel rest).map (item :: ·)

end

/-- The value that the octets encode, if they are its distinguished encoding. -/
def decode (octets : List UInt8) : Option Node :=
  match read (2 * octets.length) octets with
  | some (node, []) => some node
  | _ => none

theorem Field.read {tag : UInt8} {contents octets : List UInt8} (field : Field tag contents octets)
    (rest : List UInt8) : readField (octets ++ rest) = some (tag, contents, rest) := by
  obtain ⟨length, isLength, rfl⟩ := field
  rw [List.cons_append, List.append_assoc, readField, isLength.read]
  dsimp only
  rw [if_pos (by simp), List.take_left', List.drop_left'] <;> rfl

theorem readField_sound {octets contents rest : List UInt8} {tag : UInt8}
    (read : readField octets = some (tag, contents, rest)) :
    ∃ field, Field tag contents field ∧ octets = field ++ rest := by
  rcases octets with - | ⟨first, after⟩
  · simp [readField] at read
  rw [readField] at read
  rcases lengthRead : readLength after with - | ⟨count, behind⟩
  · simp [lengthRead] at read
  · rw [lengthRead] at read
    dsimp only at read
    split_ifs at read with enough
    simp only [Option.some.injEq, Prod.mk.injEq] at read
    obtain ⟨rfl, rfl, rfl⟩ := read
    obtain ⟨length, isLength, rfl⟩ := readLength_sound lengthRead
    refine ⟨first :: (length ++ behind.take count), ⟨length, ?_, rfl⟩, by simp⟩
    rwa [List.length_take, Nat.min_eq_left enough]

theorem Length.pos {n : Nat} {octets : List UInt8} (length : Length n octets) :
    0 < octets.length := by
  rcases length <;> simp

theorem Field.length_le {tag : UInt8} {contents octets : List UInt8}
    (field : Field tag contents octets) : contents.length + 2 ≤ octets.length := by
  obtain ⟨length, isLength, rfl⟩ := field
  have positive := isLength.pos
  rw [List.length_cons, List.length_append]
  omega

theorem Encodes.length_le {node : Node} {octets : List UInt8} (encodes : Encodes node octets) :
    2 ≤ octets.length := by
  rcases encodes with ⟨-, field⟩ | field | ⟨-, field⟩
  all_goals
    have least := field.length_le
    omega

mutual

theorem Encodes.read {node : Node} {octets : List UInt8} {fuel : Nat}
    (encodes : Encodes node octets) (enough : 2 * octets.length ≤ fuel + 1) (rest : List UInt8) :
    read fuel (octets ++ rest) = some (node, rest) := by
  have least := encodes.length_le
  rcases fuel with - | fuel
  · omega
  rcases encodes with ⟨shortest, field⟩ | field | ⟨all, field⟩
  · rw [Der.read, field.read]
    dsimp only
    rw [if_pos rfl, if_pos shortest]
  · rw [Der.read, field.read]
    rfl
  · have bound := field.length_le
    have contents := @EncodesAll.read _ _ fuel all (by omega)
    rw [Der.read, field.read]
    change (readAll fuel _).map _ = _
    rw [contents]
    rfl

theorem EncodesAll.read {items : List Node} {octets : List UInt8} {fuel : Nat}
    (encodes : EncodesAll items octets) (enough : 2 * octets.length + 1 ≤ fuel) :
    readAll fuel octets = some items := by
  rcases fuel with - | fuel
  · omega
  rcases encodes with - | ⟨first, others⟩
  · rfl
  · rename_i item items a b
    have least := first.length_le
    rw [List.length_append] at enough
    have ne : a ++ b ≠ [] := by
      intro empty
      rw [(List.append_eq_nil_iff.mp empty).1, List.length_nil] at least
      omega
    have head := @Encodes.read _ _ fuel first (by omega) b
    have tail := @EncodesAll.read _ _ fuel others (by omega)
    rw [readAll, if_neg ne, head]
    dsimp only
    rw [tail]
    rfl

end

theorem sound (fuel : Nat) :
    (∀ {octets rest : List UInt8} {node : Node}, read fuel octets = some (node, rest) →
      ∃ own, Encodes node own ∧ octets = own ++ rest) ∧
    ∀ {octets : List UInt8} {items : List Node}, readAll fuel octets = some items →
      EncodesAll items octets := by
  induction fuel with
  | zero => constructor <;> intros <;> simp_all [read, readAll]
  | succ fuel ih =>
      obtain ⟨one, all⟩ := ih
      constructor
      · intro octets rest node run
        rw [read] at run
        rcases fieldRead : readField octets with - | ⟨tag, contents, behind⟩
        · simp [fieldRead] at run
        · obtain ⟨own, field, rfl⟩ := readField_sound fieldRead
          rw [fieldRead] at run
          dsimp only at run
          split_ifs at run with isInteger shortest isOctets isSequence
          · simp only [Option.some.injEq, Prod.mk.injEq] at run
            obtain ⟨rfl, rfl⟩ := run
            subst isInteger
            exact ⟨own, .integer shortest field, rfl⟩
          · simp only [Option.some.injEq, Prod.mk.injEq] at run
            obtain ⟨rfl, rfl⟩ := run
            subst isOctets
            exact ⟨own, .octets field, rfl⟩
          · rcases inner : readAll fuel contents with - | items
            · simp [inner] at run
            · simp only [inner, Option.map_some, Option.some.injEq, Prod.mk.injEq] at run
              obtain ⟨rfl, rfl⟩ := run
              subst isSequence
              exact ⟨own, .sequence (all inner) field, rfl⟩
      · intro octets items run
        rw [readAll] at run
        split_ifs at run with empty
        · simp only [Option.some.injEq] at run
          subst run empty
          exact .nil
        · rcases first : read fuel octets with - | ⟨item, rest⟩
          · simp [first] at run
          · rcases others : readAll fuel rest with - | items'
            · simp [first, others] at run
            · simp only [first, others, Option.map_some, Option.some.injEq] at run
              subst run
              obtain ⟨own, encodes, rfl⟩ := one first
              exact .cons encodes (all others)

/-- Reading accepts exactly the encodings. -/
theorem decode_iff {octets : List UInt8} {node : Node} :
    decode octets = some node ↔ Encodes node octets := by
  constructor
  · intro run
    rw [decode] at run
    rcases whole : read (2 * octets.length) octets with - | ⟨found, - | ⟨a, rest⟩⟩
    · simp [whole] at run
    · simp only [whole, Option.some.injEq] at run
      obtain ⟨own, encodes, rfl⟩ := (sound _).1 whole
      rwa [List.append_nil, ← run]
    · simp [whole] at run
  · intro encodes
    have run := @Encodes.read _ _ (2 * octets.length) encodes (by omega) []
    rw [List.append_nil] at run
    rw [decode, run]

end Der
