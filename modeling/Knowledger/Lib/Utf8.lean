import Mathlib

/-!
# The octets of a text

The UTF-8 octets of a list of characters, and how the strings of Lean's library compute them.  An
octet below 128 is a character of its own.
-/

namespace Utf8

/-- The octets of the characters. -/
def encode (text : List Char) : List UInt8 := text.flatMap String.utf8EncodeChar

theorem encode_append (a b : List Char) : encode (a ++ b) = encode a ++ encode b :=
  List.flatMap_append

theorem toList_loop (bs : ByteArray) (i : Nat) (r : List UInt8) :
    ByteArray.toList.loop bs i r = r.reverse ++ bs.data.toList.drop i := by
  fun_induction ByteArray.toList.loop bs i r with
  | case1 i r small ih =>
      have inside : i < bs.data.toList.length := by simpa using small
      have read : bs.get! i = bs.data.toList[i] := by
        rw [ByteArray.get!, getElem!_pos bs.data i small, Array.getElem_toList]
      rw [ih, List.reverse_cons, List.append_assoc, List.singleton_append,
        List.drop_eq_getElem_cons inside, read]
  | case2 i r large =>
      rw [List.drop_eq_nil_of_le (by simpa using large), List.append_nil]

theorem toUTF8_ofList (text : List Char) : (String.ofList text).toUTF8.toList = encode text := by
  rw [String.toUTF8_eq_toByteArray, String.toByteArray_ofList, ByteArray.toList, toList_loop]
  simp [List.utf8Encode, encode]

theorem utf8ByteSize_ofList (text : List Char) :
    (String.ofList text).utf8ByteSize = (encode text).length := by
  rw [← String.size_toByteArray, String.toByteArray_ofList, List.utf8Encode,
    List.size_toByteArray, encode]

/-- The octets of a character above 127 have their first bit set. -/
theorem mem_utf8EncodeChar {c : Char} {b : UInt8} (mem : b ∈ String.utf8EncodeChar c)
    (ascii : b.toNat < 128) : c.toNat = b.toNat := by
  unfold String.utf8EncodeChar at mem
  dsimp only at mem
  split_ifs at mem with one two three
  · obtain rfl := List.mem_singleton.mp mem
    change c.val.toNat = _
    rw [UInt8.toNat_ofNat']
    omega
  all_goals
    simp only [List.mem_cons, List.not_mem_nil, or_false] at mem
    rcases mem with rfl | rfl | rfl | rfl
  all_goals
    simp only [UInt8.toNat_add, UInt8.toNat_ofNat'] at ascii
    omega

/-- An octet below 128 is there only for its character. -/
theorem mem_encode {text : List Char} {b : UInt8} (mem : b ∈ encode text)
    (ascii : b.toNat < 128) : ∃ c ∈ text, c.toNat = b.toNat := by
  obtain ⟨c, inside, mem⟩ := List.mem_flatMap.mp mem
  exact ⟨c, inside, mem_utf8EncodeChar mem ascii⟩

/-- A character has at most four octets. -/
theorem length_encode_le (text : List Char) : (encode text).length ≤ 4 * text.length := by
  induction text with
  | nil => rfl
  | cons c text ih =>
      have one : (String.utf8EncodeChar c).length ≤ 4 := by
        unfold String.utf8EncodeChar
        dsimp only
        split_ifs <;> simp
      rw [encode, List.flatMap_cons, List.length_append, List.length_cons]
      rw [encode] at ih
      omega

end Utf8
