import Knowledger.Canonical
import Knowledger.Lib.Uri

/-!
# Identifiers, slots and state keys

The patterns of the protocol's strings, with one type for the strings of each: a value of
`Id` or `Digest` cannot hold anything else.  A `Slot` is a complete acceptance slot;
`slotKey` and `stateKey` are its text and the text of a record's key.  Both are injective
(`slotKey_inj`, `stateKey_inj`), so records of different kinds or names never share a key.
-/

namespace Knowledger

open Js Uri

/-! ## Patterns -/

def inRange (low high : Nat) (c : Char) : Bool := Nat.ble low c.toNat && Nat.ble c.toNat high
def lowerChar (c : Char) : Bool := inRange 97 122 c
def upperChar (c : Char) : Bool := inRange 65 90 c
def digitChar (c : Char) : Bool := inRange 48 57 c
def letterChar (c : Char) : Bool := upperChar c || lowerChar c

def punctuation : List Char := ['.', '_', ':', '-']

/-- `[A-Za-z0-9._:-]` -/
def idChar (c : Char) : Bool := letterChar c || digitChar c || punctuation.contains c

/-- One character of `head`, then `low` to `high` characters of `tail`. -/
def headThen (head tail : Char → Bool) (low high : Nat) : List Char → Bool
  | [] => false
  | c :: cs => head c && cs.all tail && Nat.ble low cs.length && Nat.ble cs.length high

/-- `/^[A-Za-z][A-Za-z0-9._:-]{2,63}$/` -/
def isId (s : String) : Bool := headThen letterChar idChar 2 63 s.toList

/-- `[0-9a-f]` -/
def hexChar (c : Char) : Bool := digitChar c || inRange 97 102 c

/-- `/^sha256:[0-9a-f]{64}$/` -/
def isDigest (s : String) : Bool :=
  let cs := s.toList
  cs.take 7 == "sha256:".toList && (cs.drop 7).all hexChar && (cs.drop 7).length == 64

/-- `/^[a-z][a-z0-9-]{1,40}\/v[1-9][0-9]*$/` -/
def isUsageScope (s : String) : Bool :=
  let cs := s.toList
  let name := cs.takeWhile (fun c => c != '/')
  headThen lowerChar (fun c => lowerChar c || digitChar c || c == '-') 1 40 name &&
    (match cs.drop name.length with
     | '/' :: 'v' :: d :: ds => inRange 49 57 d && ds.all digitChar
     | _ => false)

/-- `/^[a-z][a-z0-9_:-]{2,63}$/` -/
def isRelationship (s : String) : Bool :=
  headThen lowerChar (fun c => lowerChar c || digitChar c || c == '_' || c == ':' || c == '-')
    2 63 s.toList

/-- `/^[A-Za-z0-9._:-]{16,128}$/` -/
def isNonce (s : String) : Bool :=
  let cs := s.toList
  cs.all idChar && Nat.ble 16 cs.length && Nat.ble cs.length 128

abbrev Id := {s : String // isId s = true}
abbrev Digest := {s : String // isDigest s = true}
abbrev UsageScope := {s : String // isUsageScope s = true}
abbrev Relationship := {s : String // isRelationship s = true}
abbrev Nonce := {s : String // isNonce s = true}

/-- A safe integer of at least `minimum`. -/
abbrev SafeInt (minimum : Nat) := {n : Nat // minimum ≤ n ∧ n ≤ 9007199254740991}

theorem SafeInt.zero_valid : 0 ≤ 0 ∧ 0 ≤ 9007199254740991 := by decide

theorem SafeInt.one_valid : 1 ≤ 1 ∧ 1 ≤ 9007199254740991 := by decide

/-- A non-empty string of at most `maxLength` characters. -/
abbrev Text (maxLength : Nat) := {s : String // 1 ≤ s.length ∧ s.length ≤ maxLength}

/-! ## Slots -/

structure Slot where
  channelId : Id
  documentId : Id
  contextId : Id
  scopeId : Id
  usageScope : UsageScope
  deriving DecidableEq

/-- `parts.join(sep)` -/
def joinWith (sep : Char) (parts : List String) : String :=
  String.ofList ([sep].intercalate (parts.map String.toList))

/-- `s.split(sep)` -/
def splitOn (sep : Char) (s : String) : List String :=
  (s.toList.splitOn sep).map String.ofList

/-- Stable complete acceptance slot key. The chosen separator is excluded by v1 ids. -/
def slotKey (slot : Slot) : String :=
  joinWith '|' [slot.channelId.1, slot.documentId.1, slot.contextId.1, slot.scopeId.1,
    slot.usageScope.1]

def sameSlot (left right : Slot) : Bool := slotKey left == slotKey right

theorem splitOn_joinWith {sep : Char} {parts : List String}
    (free : ∀ p ∈ parts, sep ∉ p.toList) (nonempty : parts ≠ []) :
    splitOn sep (joinWith sep parts) = parts := by
  unfold splitOn joinWith
  rw [String.toList_ofList, List.splitOn_intercalate]
  · simp
  · intro l mem
    obtain ⟨p, inside, rfl⟩ := List.mem_map.mp mem
    exact free p inside
  · simpa using nonempty

theorem joinWith_inj {sep : Char} {ps qs : List String} (fp : ∀ p ∈ ps, sep ∉ p.toList)
    (fq : ∀ q ∈ qs, sep ∉ q.toList) (np : ps ≠ []) (nq : qs ≠ [])
    (h : joinWith sep ps = joinWith sep qs) : ps = qs := by
  rw [← splitOn_joinWith fp np, h, splitOn_joinWith fq nq]

theorem headThen_all {head tail : Char → Bool} {low high : Nat} {cs : List Char}
    (h : headThen head tail low high cs = true) : ∀ c ∈ cs, head c = true ∨ tail c = true := by
  cases cs with
  | nil => cases h
  | cons d ds =>
      simp only [headThen, Bool.and_eq_true] at h
      intro c mem
      rcases List.mem_cons.mp mem with rfl | inside
      · exact Or.inl h.1.1.1
      · exact Or.inr (List.all_eq_true.mp h.1.1.2 c inside)

theorem Id.chars (id : Id) : ∀ c ∈ id.1.toList, idChar c = true := by
  intro c mem
  rcases headThen_all id.2 c mem with letter | inside
  · simp [idChar, letter]
  · exact inside

theorem Id.not_mem (id : Id) {c : Char} (other : idChar c = false) : c ∉ id.1.toList := by
  intro mem
  rw [id.chars c mem] at other
  cases other

theorem UsageScope.not_mem_bar (scope : UsageScope) : '|' ∉ scope.1.toList := by
  have valid := scope.2
  unfold isUsageScope at valid
  dsimp only at valid
  simp only [Bool.and_eq_true] at valid
  obtain ⟨name, version⟩ := valid
  intro mem
  rw [← List.take_append_drop
      (scope.1.toList.takeWhile fun c => c != '/').length scope.1.toList,
    List.mem_append, ← List.prefix_iff_eq_take.mp (List.takeWhile_prefix _)] at mem
  rcases mem with inside | inside
  · rcases headThen_all name _ inside with head | tail
    · exact absurd head (by decide)
    · exact absurd tail (by decide)
  · split at version
    next d ds shape =>
      simp only [Bool.and_eq_true] at version
      rw [shape] at inside
      simp only [List.mem_cons] at inside
      rcases inside with bar | bar | rfl | digits
      · exact absurd bar (by decide)
      · exact absurd bar (by decide)
      · exact absurd version.1 (by decide)
      · exact absurd (List.all_eq_true.mp version.2 _ digits) (by decide)
    next => cases version

theorem slotKey_parts_free (slot : Slot) :
    ∀ p ∈ [slot.channelId.1, slot.documentId.1, slot.contextId.1, slot.scopeId.1,
      slot.usageScope.1], '|' ∉ p.toList := by
  have free : ∀ id : Id, '|' ∉ id.1.toList := fun id => id.not_mem (by decide)
  intro p mem
  simp only [List.mem_cons, List.not_mem_nil, or_false] at mem
  rcases mem with rfl | rfl | rfl | rfl | rfl
  · exact free _
  · exact free _
  · exact free _
  · exact free _
  · exact slot.usageScope.not_mem_bar

theorem slotKey_inj {left right : Slot} (h : slotKey left = slotKey right) : left = right := by
  have parts := joinWith_inj (slotKey_parts_free left) (slotKey_parts_free right) (by simp)
    (by simp) h
  simp only [List.cons.injEq, and_true] at parts
  obtain ⟨channel, document, context, scope, usage⟩ := parts
  cases left
  cases right
  simp only [Slot.mk.injEq]
  exact ⟨Subtype.ext channel, Subtype.ext document, Subtype.ext context, Subtype.ext scope,
    Subtype.ext usage⟩

@[simp] theorem sameSlot_iff {left right : Slot} : sameSlot left right = true ↔ left = right := by
  constructor
  · intro same
    exact slotKey_inj (by simpa [sameSlot] using same)
  · rintro rfl
    simp [sameSlot]

/-! ## State keys -/

/-- The kinds of records, with the base of their keys. -/
inductive KeyPrefix
  | config
  | revision
  | revisionId
  | policy
  | proposal
  | decision
  | latestDecision
  | reviewCounter
  | agreement
  | activeSlot
  | eligibilityEpoch
  | idempotency
  | fence
  deriving DecidableEq

def KeyPrefix.kind : KeyPrefix → String
  | .config => "config"
  | .revision => "revision"
  | .revisionId => "revision_id"
  | .policy => "policy"
  | .proposal => "proposal"
  | .decision => "decision"
  | .latestDecision => "latest_decision"
  | .reviewCounter => "review_counter"
  | .agreement => "agreement"
  | .activeSlot => "active_slot"
  | .eligibilityEpoch => "eligibility_epoch"
  | .idempotency => "idempotency"
  | .fence => "fence"

/-- `KEY_PREFIXES` -/
def keyPrefixes (k : KeyPrefix) : String := "kcl:v1:" ++ k.kind

def stateKey (k : KeyPrefix) (parts : List String) : String :=
  let base := keyPrefixes k
  if parts.isEmpty then base
  else base ++ ":" ++ joinWith ':' (parts.map encodeURIComponent)

namespace keyFor

def config : String := stateKey .config []
def revision (digest : String) : String := stateKey .revision [digest]
def revisionId (revisionId : String) : String := stateKey .revisionId [revisionId]
def policy (policyId : String) (policyVersion : Nat) : String :=
  stateKey .policy [policyId, Nat.repr policyVersion]
def proposal (proposalId : String) : String := stateKey .proposal [proposalId]
def decision (decisionId : String) : String := stateKey .decision [decisionId]
def latestDecision (proposalId : String) (policyVersion : Nat) (role orgId actorId : String) :
    String :=
  stateKey .latestDecision [proposalId, Nat.repr policyVersion, role, orgId, actorId]
def reviewCounter (proposalId : String) : String := stateKey .reviewCounter [proposalId]
def agreement (agreementId : String) : String := stateKey .agreement [agreementId]
def activeSlot (slot : Slot) : String := stateKey .activeSlot [slotKey slot]
def eligibilityEpoch : String := stateKey .eligibilityEpoch []
def idempotency (orgId commandId : String) : String := stateKey .idempotency [orgId, commandId]
def fence (nonce : String) : String := stateKey .fence [nonce]

end keyFor

/-- The key of a record named by an unchecked string: `encodeURIComponent` throws on an
unpaired surrogate. -/
def keyOfString (k : KeyPrefix) (name : Str) : Except Thrown String :=
  match name with
  | .wellFormed s => .ok (stateKey k [s])
  | .illFormed _ _ => .error .uriError

/-- The parts of a key between its separators. -/
def keyParts (k : KeyPrefix) (parts : List String) : List String :=
  "kcl" :: "v1" :: k.kind :: parts.map encodeURIComponent

theorem KeyPrefix.kind_inj {j k : KeyPrefix} (h : j.kind = k.kind) : j = k := by
  cases j <;> cases k <;> first | rfl | exact absurd h (by decide)

theorem KeyPrefix.not_mem_kind (k : KeyPrefix) : ':' ∉ k.kind.toList := by
  cases k <;> decide

theorem not_mem_encoded (s : String) : ':' ∉ (encodeURIComponent s).toList :=
  not_mem_encodeURIComponent s (by decide) (by decide)

theorem keyParts_free (k : KeyPrefix) (parts : List String) :
    ∀ p ∈ keyParts k parts, ':' ∉ p.toList := by
  intro p mem
  simp only [keyParts, List.mem_cons, List.mem_map] at mem
  rcases mem with rfl | rfl | rfl | ⟨s, _, rfl⟩
  · decide
  · decide
  · exact k.not_mem_kind
  · exact not_mem_encoded s

/-- A key is the join of its parts. -/
theorem stateKey_eq (k : KeyPrefix) (parts : List String) :
    stateKey k parts = joinWith ':' (keyParts k parts) := by
  rw [← String.toList_inj]
  cases parts with
  | nil =>
      simp only [stateKey, List.isEmpty_nil, if_true, keyPrefixes, keyParts, List.map_nil,
        joinWith, String.toList_append, String.toList_ofList, List.map_cons]
      simp [List.intercalate]
  | cons p ps =>
      simp only [stateKey, List.isEmpty_cons, Bool.false_eq_true, if_false, keyPrefixes,
        keyParts, joinWith, String.toList_append, String.toList_ofList, List.map_cons]
      simp [List.intercalate]

/-- `key.split(':')` -/
theorem split_stateKey (k : KeyPrefix) (parts : List String) :
    splitOn ':' (stateKey k parts) = keyParts k parts := by
  rw [stateKey_eq]
  exact splitOn_joinWith (keyParts_free k parts) (by simp [keyParts])

/-- **Keys are injective**: records of different kinds or names have different keys. -/
@[simp] theorem stateKey_inj {j k : KeyPrefix} {ps qs : List String} :
    stateKey j ps = stateKey k qs ↔ j = k ∧ ps = qs := by
  constructor
  · intro h
    have parts := congrArg (splitOn ':') h
    rw [split_stateKey, split_stateKey] at parts
    simp only [keyParts, List.cons.injEq, true_and] at parts
    exact ⟨KeyPrefix.kind_inj parts.1,
      (List.map_injective_iff.mpr encodeURIComponent_injective) parts.2⟩
  · rintro ⟨rfl, rfl⟩
    rfl

end Knowledger
