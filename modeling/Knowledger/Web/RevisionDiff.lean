import Knowledger.Dependencies
import Knowledger.Lib.JsonText
import Knowledger.Lossless
import Knowledger.Web.LineDiff

/-!
# Revision comparison

The comparison of two revisions that a reviewer is shown: their titles, the references to other
revisions that were added, removed or changed, and their lines.  A changed reference is searched
by its digest among the previous ones, and the first is taken.  `compareRevisions_dependencies`
says when an empty report means that the references are the same.
-/

namespace Knowledger.Web

open Js

/-! ## Values -/

/-- `RevisionComparisonError`, or the `TypeError` of an access to a property of `null`. -/
inductive Refused
  | comparison (code message : String)
  | typeError

def strictEqual : Option Value → Option Value → Bool
  | none, none => true
  | some .null, some .null => true
  | some (.bool a), some (.bool b) => a == b
  | some (.num a), some (.num b) => a != .nan && a == b
  | some (.str a), some (.str b) => a == b
  | _, _ => false

def truthy : Option Value → Bool
  | none => false
  | some .null => false
  | some (.bool b) => b
  | some (.num n) => n != .int 0 && n != .nan
  | some (.str s) => !s.units.isEmpty
  | some (.arr _) => true
  | some (.obj _) => true

/-- `Object.entries(value)`. -/
def entries : Value → Fields
  | .obj fields => fields
  | .arr items => items.zipIdx.map fun (v, i) => (.wellFormed (Nat.repr i), v)
  | .str s => s.units.zipIdx.map fun (u, i) => (.wellFormed (Nat.repr i), .str (Str.ofUnits [u]))
  | _ => []

/-- The octets of a text in UTF-8, with three for an unpaired surrogate. -/
def encodedLength : Str → Nat
  | .wellFormed s => s.utf8ByteSize
  | .illFormed units _ => count units
where
  count : Text → Nat
    | [] => 0
    | [u] => if u < 0x80 then 1 else if u < 0x800 then 2 else 3
    | u :: v :: rest =>
      if 0xD800 ≤ u ∧ u ≤ 0xDBFF ∧ 0xDC00 ≤ v ∧ v ≤ 0xDFFF then 4 + count rest
      else (if u < 0x80 then 1 else if u < 0x800 then 2 else 3) + count (v :: rest)

/-! ## Revisions -/

def maxMarkdownBytes : Nat := 262144

def slotFields : List String :=
  ["channel_id", "document_id", "context_id", "scope_id", "usage_scope"]

def record (value : Option Value) (label : String) : Except Refused Fields :=
  match value with
  | some (.obj fields) => .ok fields
  | _ => .error (.comparison "INVALID_REVISION" (label ++ "이 올바르지 않습니다."))

structure RevisionParts where
  revisionDigest : Str
  payload : Fields
  title : Str
  bodyMarkdown : Str

def revisionParts (value : Option Value) (label : String) : Except Refused RevisionParts := do
  let revision ← record value label
  let payload ← record (revision.get "payload") (label ++ ".payload")
  let some (.str revisionDigest) := revision.get "revision_digest"
    | .error (.comparison "INVALID_REVISION" (label ++ " digest가 없습니다."))
  if revisionDigest.units.length = 0 then
    .error (.comparison "INVALID_REVISION" (label ++ " digest가 없습니다."))
  let some (.str bodyMarkdown) := payload.get "body_markdown"
    | .error (.comparison "INVALID_REVISION" (label ++ " 본문이 올바르지 않습니다."))
  let some (.str title) := payload.get "title"
    | .error (.comparison "INVALID_REVISION" (label ++ " 본문이 올바르지 않습니다."))
  if encodedLength bodyMarkdown > maxMarkdownBytes then
    .error (.comparison "MARKDOWN_LIMIT" "Markdown 본문은 256 KiB 이하여야 합니다.")
  return ⟨revisionDigest, payload, title, bodyMarkdown⟩

def sameSlot (current previous : RevisionParts) : Bool :=
  slotFields.all fun field => strictEqual (current.payload.get field) (previous.payload.get field)

/-! ## References -/

def digest : Value → Option Str
  | .obj fields =>
    match Fields.get fields "revision_digest" with
    | some (.str s) => some s
    | _ => none
  | _ => none

/-- The digests of the references, less the empty ones. -/
def digests (payload : Fields) : List Str :=
  match payload.get "dependencies" with
  | some (.arr items) => (items.filterMap digest).filter fun s => !s.units.isEmpty
  | _ => []

/-- The text of an object with its properties sorted; the names that occur are ASCII. -/
def signature (value : Value) : List Char :=
  (Value.obj ((entries value).insertionSort fieldLe)).text

/-- `item.revision_digest`. -/
def digestProperty : Value → Except Refused (Option Value)
  | .null => .error .typeError
  | .obj fields => .ok (Fields.get fields "revision_digest")
  | _ => .ok none

/-- `payload.dependencies || []`. A value that is no list has no `find`. -/
def references (payload : Fields) : Except Refused (List Value) :=
  match payload.get "dependencies" with
  | some (.arr items) => .ok items
  | other => if truthy other then .error .typeError else .ok []

def findPrior (reference : Value) : List Value → Except Refused (Option Value)
  | [] => .ok none
  | item :: rest => do
    if strictEqual (← digestProperty item) (← digestProperty reference) then return some item
    else findPrior reference rest

structure ChangedReference where
  revisionDigest : Option Value
  before : Value
  after : Value

def changedReferences (beforePayload : Fields) :
    List Value → Except Refused (List ChangedReference)
  | [] => .ok []
  | reference :: rest => do
    let prior ← findPrior reference (← references beforePayload)
    match prior with
    | some item =>
      if truthy (some item) && signature item != signature reference then
        let revisionDigest ← digestProperty reference
        return ⟨revisionDigest, item, reference⟩ :: (← changedReferences beforePayload rest)
      else changedReferences beforePayload rest
    | none => changedReferences beforePayload rest

structure DependencyDiff where
  changed : List ChangedReference
  before : List Value
  after : List Value
  added : List Str
  removed : List Str

def dependencyDiff (beforePayload afterPayload : Fields) : Except Refused DependencyDiff := do
  let before := digests beforePayload
  let after := digests afterPayload
  let changed ← changedReferences beforePayload (← references afterPayload)
  return {
    changed
    before := before.map Value.str
    after := after.map Value.str
    added := after.eraseDups.filter fun value => !before.contains value
    removed := before.eraseDups.filter fun value => !after.contains value }

/-! ## The comparison -/

structure TitleDiff where
  before : Option Str
  after : Str
  changed : Bool

structure RevisionComparison where
  hasPrevious : Bool
  currentDigest : Str
  previousDigest : Option Str
  sameSlot : Bool
  title : TitleDiff
  dependencies : DependencyDiff
  body : LineDiff

/-- `item?.revision_digest`. -/
def digestIfPresent : Value → Option Value
  | .obj fields => Fields.get fields "revision_digest"
  | _ => none

/-- The comparison of a first revision. -/
def firstPublished (current : RevisionParts) : Except Refused RevisionComparison := do
  let items ← references current.payload
  return {
    hasPrevious := false
    currentDigest := current.revisionDigest
    previousDigest := none
    sameSlot := true
    title := ⟨none, current.title, true⟩
    dependencies := ⟨[], [], (items.filterMap digestIfPresent).filter (truthy ∘ some), [], []⟩
    body := {
      fallback := false
      message := "이 문서 범위의 이전 개정본이 없습니다. 최초 게시본입니다."
      lines := []
      beforeText := none
      afterText := none
      lineEndingsChanged := false
      beforeLineCount := 0
      afterLineCount := (lines current.bodyMarkdown.units).length } }

def compareRevisions (currentValue previousValue : Option Value) :
    Except Refused RevisionComparison := do
  let current ← revisionParts currentValue "현재 개정본"
  if previousValue.all fun value => match value with
      | .null => true
      | _ => false then
    firstPublished current
  else
    let previous ← revisionParts previousValue "이전 개정본"
    if !sameSlot current previous then
      .error (.comparison "DIFFERENT_SLOT" "서로 다른 문서 범위는 비교할 수 없습니다.")
    let dependencies ← dependencyDiff previous.payload current.payload
    let some body := lineDiff previous.bodyMarkdown.units current.bodyMarkdown.units
      | .error .typeError
    return {
      hasPrevious := true
      currentDigest := current.revisionDigest
      previousDigest := previous.revisionDigest
      sameSlot := true
      title := ⟨previous.title, current.title, previous.title != current.title⟩
      dependencies
      body }

/-! ## Properties of a valid revision -/

/-- The value is written as `json`, up to the order of properties. -/
def Written (v json : Value) : Prop := v.normalize = json.normalize

theorem Written.string {v : Value} {s : String} (written : Written v (jsonString s)) :
    v = jsonString s := by
  rw [Written, normalize_jsonString, jsonString] at written
  cases v with
  | null => simp at written
  | bool b => simp at written
  | num n => simp at written
  | str t =>
      rw [Value.normalize_str] at written
      exact written
  | arr items =>
      rw [Value.normalize_arr] at written
      cases written
  | obj fields =>
      rw [Value.normalize_obj] at written
      cases written

/-- An object that is written as a record has its properties. -/
theorem Written.record {v : Value} {l : List (String × Option Value)}
    (written : Written v (Knowledger.record l)) : ∃ fields : Fields, v = .obj fields ∧
      fields.normalize = (recordFields l).normalize ∧
      ∀ name, (fields.get name).map Value.normalize =
        ((recordFields l).get name).map Value.normalize := by
  rw [Written, Knowledger.record, Value.normalize_obj] at written
  cases v with
  | null => simp at written
  | bool b => simp at written
  | num n => simp at written
  | str t => simp at written
  | arr items =>
      rw [Value.normalize_arr] at written
      cases written
  | obj fields =>
      rw [Value.normalize_obj] at written
      have same := Value.obj.inj written
      refine ⟨fields, rfl, same, fun name => ?_⟩
      rw [← Fields.get_normalize, same, Fields.get_normalize]

theorem Written.items {v : Value} {α : Type} {toJson : α → Value} {all : List α}
    (written : Written v (.arr (all.map toJson))) : ∃ items, v = .arr items ∧
      List.Forall₂ (fun item a => Written item (toJson a)) items all := by
  rw [Written, Value.normalize_arr] at written
  cases v with
  | null => simp at written
  | bool b => simp at written
  | num n => simp at written
  | str t => simp at written
  | arr items =>
      rw [Value.normalize_arr] at written
      have same := Value.arr.inj written
      refine ⟨items, rfl, ?_⟩
      rw [← List.forall₂_map_right_iff (f := toJson)]
      clear written
      generalize all.map toJson = jsons at same
      induction items generalizing jsons with
      | nil =>
          rw [List.map_nil] at same
          rw [List.map_eq_nil_iff.mp same.symm]
          exact .nil
      | cons item items ih =>
          rcases jsons with - | ⟨json, jsons⟩
          · simp at same
          · rw [List.map_cons, List.map_cons, List.cons.injEq] at same
            exact .cons same.1 (ih _ same.2)
  | obj fields =>
      rw [Value.normalize_obj] at written
      cases written

theorem get_string {fields : Fields} {l : List (String × Option Value)} {name text : String}
    (same : ∀ name, (fields.get name).map Value.normalize =
      ((recordFields l).get name).map Value.normalize)
    (found : (recordFields l).get name = some (jsonString text)) :
    fields.get name = some (jsonString text) := by
  have read := same name
  rw [found, Option.map_some, Option.map_eq_some_iff] at read
  obtain ⟨v, get, written⟩ := read
  rw [get, Written.string written]

theorem get_value {fields : Fields} {l : List (String × Option Value)} {name : String}
    {json : Value} (same : ∀ name, (fields.get name).map Value.normalize =
      ((recordFields l).get name).map Value.normalize)
    (found : (recordFields l).get name = some json) :
    ∃ v, fields.get name = some v ∧ Written v json := by
  have read := same name
  rw [found, Option.map_some, Option.map_eq_some_iff] at read
  exact read

theorem units_ne_nil {s : String} (text : s.toList ≠ []) : (Str.wellFormed s).units.length ≠ 0 := by
  change (s.toList.flatMap charUnits).length ≠ 0
  rcases shape : s.toList with - | ⟨c, rest⟩
  · exact absurd shape text
  · have positive : 0 < (charUnits c).length := by
      rw [charUnits]
      split_ifs <;> simp
    rw [List.flatMap_cons, List.length_append]
    omega

theorem digest_units (d : Digest) : (Str.wellFormed d.1).units.length ≠ 0 := by
  apply units_ne_nil
  intro none
  have named := d.2
  rw [isDigest, none] at named
  exact absurd named (by decide)

/-! ## References of valid revisions -/

section

variable {item other : Value} {d e : RevisionDependency}

theorem digestProperty_written (written : Written item d.toJson) :
    digestProperty item = .ok (some (jsonString d.revisionDigest.1)) ∧
      digest item = some (.wellFormed d.revisionDigest.1) := by
  obtain ⟨fields, rfl, -, same⟩ := Written.record written
  have get : fields.get "revision_digest" = some (jsonString d.revisionDigest.1) :=
    get_string same (by simp)
  constructor
  · rw [digestProperty, get]
  · rw [digest, get]
    rfl

/-- The signature is the canonical text: every property of a reference is a string. -/
theorem signature_written (written : Written item d.toJson) :
    signature item = d.toJson.normalize.text := by
  obtain ⟨fields, rfl, same, -⟩ := Written.record written
  have flat : normalizeFields fields = fields := by
    rw [normalizeFields_eq]
    refine (List.map_congr_left fun f mem => ?_).trans (List.map_id' _)
    obtain ⟨k, v⟩ := f
    have inside : (k, v.normalize) ∈ fields.normalize := Fields.mem_normalize.mpr ⟨v, mem, rfl⟩
    rw [same] at inside
    obtain ⟨w, listed, normal⟩ := Fields.mem_normalize.mp inside
    have text : ∃ s, w = jsonString s := by
      simp only [recordFields, List.mem_filterMap, Option.map_eq_some_iff, Prod.mk.injEq] at listed
      obtain ⟨f, mem, u, some, -, rfl⟩ := listed
      simp only [List.mem_cons, List.not_mem_nil, or_false] at mem
      rcases mem with rfl | rfl | rfl | rfl | rfl | rfl | rfl | rfl
      all_goals exact ⟨_, (Option.some.inj some).symm⟩
    obtain ⟨s, rfl⟩ := text
    rw [Written.string normal.symm, normalize_jsonString]
  have sorted : (Value.obj fields).normalize = .obj (fields.insertionSort fieldLe) := by
    rw [Value.normalize_obj, Fields.normalize, flat]
  have whole : (Value.obj fields).normalize = d.toJson.normalize := written
  rw [← whole, sorted]
  rfl

theorem toJson_inj (channel : d.channelId = e.channelId)
    (same : d.toJson.normalize = e.toJson.normalize) : d = e := by
  have left := validateDependency_normalize d.channelId 0 d.toJson
  have right := validateDependency_normalize d.channelId 0 e.toJson
  rw [same, right, validateDependency_json d 0, channel, validateDependency_json e 0] at left
  exact (Except.ok.inj left).symm

theorem signature_eq (channel : d.channelId = e.channelId) (left : Written item d.toJson)
    (right : Written other e.toJson) : signature item = signature other ↔ d = e := by
  constructor
  · intro same
    rw [signature_written left, signature_written right] at same
    obtain ⟨_, textD⟩ := canonicalize_isOk d.canonicalizable_json
    obtain ⟨_, textE⟩ := canonicalize_isOk e.canonicalizable_json
    exact toJson_inj channel
      (Value.text_inj (canonicalize_eq textD).2 (canonicalize_eq textE).2 same)
  · rintro rfl
    rw [signature_written left, signature_written right]

end

/-! ## The report of valid references -/

section

variable {items others : List Value} {before after : List RevisionDependency} {channelId : Id}

/-- The values are the references, in their order. -/
abbrev WrittenAll (items : List Value) (all : List RevisionDependency) : Prop :=
  List.Forall₂ (fun item d => Written item d.toJson) items all

/-- The first reference to the digest. -/
def firstOf (all : List RevisionDependency) (wanted : Digest) : Option RevisionDependency :=
  all.find? fun d => d.revisionDigest = wanted

theorem findPrior_written {reference : Value} {d : RevisionDependency}
    (written : Written reference d.toJson) (all : WrittenAll items before) :
    (findPrior reference items = .ok none ∧ firstOf before d.revisionDigest = none) ∨
      ∃ item p, findPrior reference items = .ok (some item) ∧
        firstOf before d.revisionDigest = some p ∧ Written item p.toJson := by
  induction all with
  | nil => exact Or.inl ⟨rfl, rfl⟩
  | @cons item p items before head rest ih =>
      have own := (digestProperty_written head).1
      have wanted := (digestProperty_written written).1
      rw [findPrior, own, ok_bind, wanted, ok_bind, firstOf, List.find?_cons]
      by_cases same : p.revisionDigest = d.revisionDigest
      · have equal : strictEqual (some (jsonString p.revisionDigest.1))
            (some (jsonString d.revisionDigest.1)) = true := by
          rw [same]
          exact beq_self_eq_true _
        rw [equal, decide_eq_true same]
        exact Or.inr ⟨item, p, rfl, rfl, head⟩
      · have differ : strictEqual (some (jsonString p.revisionDigest.1))
            (some (jsonString d.revisionDigest.1)) = false := by
          refine beq_false_of_ne fun text => same (Subtype.ext ?_)
          exact Str.wellFormed.inj text
        rw [differ, decide_eq_false same]
        exact ih

theorem truthy_written {item : Value} {d : RevisionDependency} (written : Written item d.toJson) :
    truthy (some item) = true := by
  obtain ⟨fields, rfl, -, -⟩ := Written.record written
  rfl

/-- A reference is reported as changed unless it is the first previous one to its digest. -/
theorem changedReferences_empty {beforePayload : Fields}
    (read : references beforePayload = .ok items) (all : WrittenAll items before)
    (channel : ∀ d ∈ before, d.channelId = channelId) (news : WrittenAll others after)
    (channel' : ∀ d ∈ after, d.channelId = channelId) :
    ∃ changed, changedReferences beforePayload others = .ok changed ∧
      (changed = [] ↔ ∀ d ∈ after, ∀ p, firstOf before d.revisionDigest = some p → p = d) := by
  induction news with
  | nil => exact ⟨[], rfl, by simp⟩
  | @cons reference d others after head rest ih =>
      obtain ⟨changed, run, empty⟩ := ih fun e mem => channel' e (List.mem_cons_of_mem _ mem)
      rw [changedReferences, read, ok_bind, List.forall_mem_cons]
      rcases findPrior_written head all with ⟨found, none⟩ | ⟨item, p, found, first, written⟩
      · refine ⟨changed, ?_, ?_⟩
        · rw [found, ok_bind]
          exact run
        · rw [none, empty]
          simp
      · have listed : p ∈ before := List.mem_of_find?_eq_some first
        have channels : p.channelId = d.channelId :=
          (channel p listed).trans (channel' d List.mem_cons_self).symm
        have signatures := signature_eq channels written head
        rw [found, ok_bind]
        dsimp only
        rw [truthy_written written, Bool.true_and]
        by_cases same : p = d
        · rw [if_neg (by simp [signatures.mpr same]), run]
          refine ⟨changed, rfl, ?_⟩
          rw [first, empty]
          simp [same]
        · have differ : signature item ≠ signature reference := fun text => same (signatures.mp text)
          rw [if_pos (by simp [differ]), (digestProperty_written head).1, ok_bind, run]
          refine ⟨_, rfl, ?_⟩
          rw [first]
          simp [same]

theorem digests_written {payload : Fields} (found : payload.get "dependencies" = some (.arr items))
    (all : WrittenAll items before) :
    digests payload = before.map fun d => Str.wellFormed d.revisionDigest.1 := by
  rw [digests, found]
  dsimp only
  clear found
  induction all with
  | nil => rfl
  | @cons item d items before head rest ih =>
      have present : (!(Str.wellFormed d.revisionDigest.1).units.isEmpty) = true := by
        rw [Bool.not_eq_true', List.isEmpty_eq_false_iff, ← List.length_pos_iff]
        exact Nat.pos_of_ne_zero (digest_units _)
      rw [List.filterMap_cons_some (digestProperty_written head).2, List.filter_cons, if_pos present,
        ih, List.map_cons]

end

/-! ## Empty reports -/

def DependencyDiff.Empty (diff : DependencyDiff) : Prop :=
  diff.added = [] ∧ diff.removed = [] ∧ diff.changed = []

/-- The same set of references. -/
def SameReferences (a b : List RevisionDependency) : Prop := ∀ d, d ∈ a ↔ d ∈ b

/-- The first reference to each digest. -/
def firsts (all : List RevisionDependency) : List RevisionDependency :=
  all.filter fun d => firstOf all d.revisionDigest = some d

section

variable {items others : List Value} {before after : List RevisionDependency} {channelId : Id}

theorem mem_firsts {d : RevisionDependency} :
    d ∈ firsts before ↔ firstOf before d.revisionDigest = some d := by
  rw [firsts, List.mem_filter, decide_eq_true_eq]
  exact ⟨And.right, fun first => ⟨List.mem_of_find?_eq_some first, first⟩⟩

theorem firstOf_exists {wanted : Digest} (named : ∃ d ∈ before, d.revisionDigest = wanted) :
    ∃ p, firstOf before wanted = some p ∧ p.revisionDigest = wanted := by
  obtain ⟨d, mem, same⟩ := named
  rcases first : firstOf before wanted with - | p
  · have unlike := List.find?_eq_none.mp first d mem
    simp [same] at unlike
  · exact ⟨p, rfl, by simpa using List.find?_some first⟩

/-- The references are just the first ones of the others when they name the same digests, each
by the first reference to it. -/
theorem sameReferences_firsts :
    SameReferences after (firsts before) ↔
      (∀ d ∈ after, ∃ p ∈ before, p.revisionDigest = d.revisionDigest) ∧
      (∀ p ∈ before, ∃ d ∈ after, d.revisionDigest = p.revisionDigest) ∧
      ∀ d ∈ after, ∀ p, firstOf before d.revisionDigest = some p → p = d := by
  constructor
  · intro same
    refine ⟨fun d mem => ?_, fun p mem => ?_, fun d mem p first => ?_⟩
    · have first := mem_firsts.mp ((same d).mp mem)
      exact ⟨d, List.mem_of_find?_eq_some first, rfl⟩
    · obtain ⟨q, first, named⟩ := firstOf_exists ⟨p, mem, rfl⟩
      exact ⟨q, (same q).mpr (mem_firsts.mpr (named ▸ first)), named⟩
    · have own := mem_firsts.mp ((same d).mp mem)
      exact Option.some.inj (first.symm.trans own)
  · rintro ⟨known, kept, unchanged⟩ d
    rw [mem_firsts]
    constructor
    · intro mem
      obtain ⟨p, first, -⟩ := firstOf_exists (known d mem)
      rw [first, unchanged d mem p first]
    · intro first
      obtain ⟨e, mem, named⟩ := kept d (List.mem_of_find?_eq_some first)
      rwa [unchanged e mem d (named ▸ first)]

theorem digest_mem {d : RevisionDependency} {all : List RevisionDependency} :
    Str.wellFormed d.revisionDigest.1 ∈ all.map (fun e => Str.wellFormed e.revisionDigest.1) ↔
      ∃ e ∈ all, e.revisionDigest = d.revisionDigest := by
  rw [List.mem_map]
  refine exists_congr fun e => and_congr_right fun _ => ?_
  rw [Str.wellFormed.injEq, Subtype.ext_iff]

/-- No digest is only in the first list. -/
theorem onlyIn_empty :
    ((before.map fun d => Str.wellFormed d.revisionDigest.1).eraseDups.filter fun value =>
        !(after.map fun d => Str.wellFormed d.revisionDigest.1).contains value) = [] ↔
      ∀ d ∈ before, ∃ e ∈ after, e.revisionDigest = d.revisionDigest := by
  rw [List.filter_eq_nil_iff]
  constructor
  · intro none d mem
    have kept := none (.wellFormed d.revisionDigest.1)
      (List.mem_eraseDups.mpr (List.mem_map.mpr ⟨d, mem, rfl⟩))
    rw [Bool.not_eq_true', Bool.not_eq_false, List.contains_iff_mem] at kept
    exact digest_mem.mp kept
  · intro known value mem
    obtain ⟨d, inside, rfl⟩ := List.mem_map.mp (List.mem_eraseDups.mp mem)
    rw [Bool.not_eq_true', Bool.not_eq_false, List.contains_iff_mem]
    exact digest_mem.mpr (known d inside)

theorem references_arr {payload : Fields}
    (found : payload.get "dependencies" = some (.arr items)) : references payload = .ok items := by
  rw [references, found]

/-- The report is empty just when the references are the first ones of the previous. -/
theorem dependencyDiff_empty {beforePayload afterPayload : Fields}
    (found : beforePayload.get "dependencies" = some (.arr items)) (all : WrittenAll items before)
    (channel : ∀ d ∈ before, d.channelId = channelId)
    (found' : afterPayload.get "dependencies" = some (.arr others)) (news : WrittenAll others after)
    (channel' : ∀ d ∈ after, d.channelId = channelId) :
    ∃ diff, dependencyDiff beforePayload afterPayload = .ok diff ∧
      (diff.Empty ↔ SameReferences after (firsts before)) := by
  obtain ⟨changed, run, empty⟩ :=
    changedReferences_empty (references_arr found) all channel news channel'
  rw [dependencyDiff, references_arr found', ok_bind, run, ok_bind]
  refine ⟨_, rfl, ?_⟩
  rw [DependencyDiff.Empty, sameReferences_firsts, digests_written found all,
    digests_written found' news]
  dsimp only
  rw [onlyIn_empty, onlyIn_empty, empty]

end

/-- The previous references name no digest twice, or the current ones are neither these nor just
the first of these to each digest. -/
def Comparable (before after : List RevisionDependency) : Prop :=
  (before.map (·.revisionDigest)).Nodup ∨
    ¬ SameReferences after before ∧ ¬ SameReferences after (firsts before)

theorem SameReferences.symm {a b : List RevisionDependency} (same : SameReferences a b) :
    SameReferences b a := fun d => (same d).symm

theorem SameReferences.trans {a b c : List RevisionDependency} (left : SameReferences a b)
    (right : SameReferences b c) : SameReferences a c := fun d => (left d).trans (right d)

/-- The first references are all of them just when no digest occurs twice. -/
theorem firsts_same {all : List RevisionDependency} (nodup : all.Nodup) :
    SameReferences (firsts all) all ↔ (all.map (·.revisionDigest)).Nodup := by
  constructor
  · intro same
    rw [List.nodup_map_iff_inj_on nodup]
    intro d memD e memE named
    have firstD := mem_firsts.mp ((same d).mpr memD)
    have firstE := mem_firsts.mp ((same e).mpr memE)
    rw [named] at firstD
    exact Option.some.inj (firstD.symm.trans firstE)
  · intro distinct d
    refine ⟨List.mem_of_mem_filter, fun mem => mem_firsts.mpr ?_⟩
    obtain ⟨p, first, named⟩ := firstOf_exists ⟨d, mem, rfl⟩
    rw [first, List.inj_on_of_nodup_map distinct (List.mem_of_find?_eq_some first) mem named]

theorem comparable_iff {before after : List RevisionDependency} (nodup : before.Nodup) :
    ((SameReferences after (firsts before) ↔ SameReferences after before) ↔
      Comparable before after) := by
  constructor
  · intro agree
    by_cases distinct : (before.map (·.revisionDigest)).Nodup
    · exact Or.inl distinct
    · have differ : ¬ SameReferences (firsts before) before := mt (firsts_same nodup).mp distinct
      refine Or.inr ⟨fun same => ?_, fun same => ?_⟩
      · exact differ ((agree.mpr same).symm.trans same)
      · exact differ (same.symm.trans (agree.mp same))
  · rintro (distinct | ⟨neither, nor⟩)
    · have same := (firsts_same nodup).mpr distinct
      exact ⟨fun first => first.trans same, fun all => all.trans same.symm⟩
    · exact iff_of_false nor neither

theorem sameSlot_written {slot : Slot} {a b : RevisionParts}
    (readA : ∀ field ∈ slot.fields, a.payload.get field.1 = field.2)
    (readB : ∀ field ∈ slot.fields, b.payload.get field.1 = field.2) : sameSlot a b = true := by
  have names : slotFields = slot.fields.map Prod.fst := rfl
  rw [sameSlot, List.all_eq_true, names]
  intro name mem
  obtain ⟨field, inside, rfl⟩ := List.mem_map.mp mem
  rw [readA field inside, readB field inside]
  simp only [Slot.fields, List.mem_cons, List.not_mem_nil, or_false] at inside
  rcases inside with rfl | rfl | rfl | rfl | rfl
  all_goals exact beq_self_eq_true _

/-! ## Valid revisions -/

section

variable [Sha256] {v w : Value} {r previous current : DocumentRevision}

/-- What the comparison takes from a valid revision. -/
theorem revisionParts_written (plain : v.plain = true) (accepted : validateRevision (some v) = .ok r)
    (label : String) : ∃ payload : Fields, revisionParts (some v) label =
      .ok ⟨.wellFormed r.revisionDigest.1, payload, .wellFormed r.payload.title.1,
        .wellFormed r.payload.bodyMarkdown.1⟩ ∧
      (∀ field ∈ r.payload.toSlot.fields, payload.get field.1 = field.2) ∧
      ∃ items, payload.get "dependencies" = some (.arr items) ∧
        WrittenAll items r.payload.dependencies := by
  have valid := validateRevision_valid _ _ accepted
  have written : Written v r.toJson := validateRevision_lossless.reads plain accepted
  obtain ⟨fields, rfl, -, same⟩ := Written.record written
  have digestRead : fields.get "revision_digest" = some (jsonString r.revisionDigest.1) :=
    get_string same (by simp)
  obtain ⟨payloadValue, payloadRead, payloadWritten⟩ :
      ∃ p, fields.get "payload" = some p ∧ Written p r.payload.toJson :=
    get_value same (by simp)
  obtain ⟨payload, rfl, -, inside⟩ := Written.record payloadWritten
  have titleRead : payload.get "title" = some (jsonString r.payload.title.1) :=
    get_string inside (by simp)
  have bodyRead : payload.get "body_markdown" = some (jsonString r.payload.bodyMarkdown.1) :=
    get_string inside (by simp)
  obtain ⟨list, listRead, listWritten⟩ : ∃ list, payload.get "dependencies" = some list ∧
      Written list (.arr (r.payload.dependencies.map RevisionDependency.toJson)) :=
    get_value inside (by simp)
  obtain ⟨items, rfl, all⟩ := Written.items listWritten
  refine ⟨payload, ?_, ?_, items, listRead, all⟩
  · have short : ¬ encodedLength (.wellFormed r.payload.bodyMarkdown.1) > maxMarkdownBytes :=
      Nat.not_lt.mpr valid.payload.body
    rw [revisionParts, record, ok_bind, payloadRead, record, ok_bind, digestRead, bodyRead,
      titleRead]
    dsimp only [jsonString]
    rw [if_neg (digest_units _), if_neg short]
    rfl
  · rw [Slot.fields]
    simp only [List.forall_mem_cons]
    refine ⟨get_string inside (by simp), get_string inside (by simp), get_string inside (by simp),
      get_string inside (by simp), get_string inside (by simp), List.forall_mem_nil _⟩

/-- Valid revisions of a slot are compared, and the report on references is empty just when the
current ones are the first of the previous. -/
theorem compareRevisions_empty (plainV : v.plain = true) (plainW : w.plain = true)
    (acceptedV : validateRevision (some v) = .ok previous)
    (acceptedW : validateRevision (some w) = .ok current)
    (slot : previous.payload.toSlot = current.payload.toSlot) :
    ∃ comparison, compareRevisions (some w) (some v) = .ok comparison ∧
      (comparison.dependencies.Empty ↔
        SameReferences current.payload.dependencies (firsts previous.payload.dependencies)) := by
  have validV := (validateRevision_valid _ _ acceptedV).payload
  have validW := (validateRevision_valid _ _ acceptedW).payload
  obtain ⟨payloadV, partsV, slotV, items, listV, allV⟩ :=
    revisionParts_written plainV acceptedV "이전 개정본"
  obtain ⟨payloadW, partsW, slotW, others, listW, allW⟩ :=
    revisionParts_written plainW acceptedW "현재 개정본"
  have channels : current.payload.channelId = previous.payload.channelId :=
    (congrArg Slot.channelId slot).symm
  obtain ⟨diff, run, empty⟩ := dependencyDiff_empty listV allV validV.channel listW allW
    fun d mem => (validW.channel d mem).trans channels
  obtain ⟨body, lineRun⟩ := lineDiff_isSome (Str.wellFormed previous.payload.bodyMarkdown.1).units
    (Str.wellFormed current.payload.bodyMarkdown.1).units
  have same : sameSlot ⟨.wellFormed current.revisionDigest.1, payloadW,
      .wellFormed current.payload.title.1, .wellFormed current.payload.bodyMarkdown.1⟩
      ⟨.wellFormed previous.revisionDigest.1, payloadV, .wellFormed previous.payload.title.1,
        .wellFormed previous.payload.bodyMarkdown.1⟩ = true :=
    sameSlot_written slotW (slot ▸ slotV)
  have given : (some v).all (fun value => match value with
      | .null => true
      | _ => false) = false := by
    rcases v with - | - | - | - | - | fields
    · cases partsV
    all_goals rfl
  rw [compareRevisions, partsW, ok_bind, given, partsV, if_neg Bool.false_ne_true, ok_bind, same,
    Bool.not_true, if_neg Bool.false_ne_true]
  dsimp only
  rw [run, lineRun]
  exact ⟨_, rfl, empty⟩

/-- For all valid revisions of a slot there is a comparison, and its report on references is empty
just when the references are the same, if and only if they are comparable. -/
theorem compareRevisions_dependencies (plainV : v.plain = true) (plainW : w.plain = true)
    (acceptedV : validateRevision (some v) = .ok previous)
    (acceptedW : validateRevision (some w) = .ok current)
    (slot : previous.payload.toSlot = current.payload.toSlot) :
    ∃ comparison, compareRevisions (some w) (some v) = .ok comparison ∧
      ((comparison.dependencies.Empty ↔
          SameReferences current.payload.dependencies previous.payload.dependencies) ↔
        Comparable previous.payload.dependencies current.payload.dependencies) := by
  obtain ⟨comparison, run, empty⟩ :=
    compareRevisions_empty plainV plainW acceptedV acceptedW slot
  have nodup : previous.payload.dependencies.Nodup := by
    have unique := (validateRevision_valid _ _ acceptedV).payload.dependenciesUnique
    rw [assertUniqueCanonical_ok] at unique
    exact unique.2.of_map.of_map
  refine ⟨comparison, run, ?_⟩
  rw [empty]
  exact comparable_iff nodup

end

/-! ## A weaker reference -/

namespace Demo

open Knowledger.Demo

@[reducible] local instance diffSha256 : Sha256 := sha256

/-- The revision of a payload under the digest of its text. -/
def digested (payload : DocumentRevisionPayload) : DocumentRevision :=
  ⟨⟨"sha256:" ++ Sha256.hexDigest (String.ofList (textOf payload)), isDigest_sha256 _⟩, payload⟩

def required : List RevisionDependency :=
  (page (name "base" base_isId) [link₀.revisionDigest]).dependencies

def informational : List RevisionDependency :=
  required.map fun d => { d with enforcement := .informational }

def referring (dependencies : List RevisionDependency) : DocumentRevisionPayload :=
  { page (name "base" base_isId) [] with dependencies }

/-- Two references to one digest, the weaker one first. -/
def both : DocumentRevision := digested (referring (informational ++ required))

def weaker : DocumentRevision := digested (referring informational)

theorem digested_accepted {p : DocumentRevisionPayload} (valid : p.Valid)
    (fits : canonicalizable p.toJson 0 = true) (small : (Utf8.encode (textOf p)).length ≤ 524288) :
    validateRevision (some (digested p).toJson) = .ok (digested p) := by
  have canonical : canonicalize p.toJson = .ok (String.ofList (textOf p)) := by
    obtain ⟨text, is⟩ := canonicalizeValue_isOk p.toJson 0 fits
    rw [textOf, canonicalize, is]
    rfl
  refine validateRevision_json ⟨valid, _, canonical, ?_, rfl⟩
  rwa [Utf8.utf8ByteSize_ofList]

theorem referring_valid {dependencies : List RevisionDependency} (few : dependencies.length ≤ 32)
    (distinct : dependencies.Nodup)
    (channel : ∀ d ∈ dependencies, d.channelId = (slot (name "doc")).channelId) :
    (referring dependencies).Valid where
  body := by
    change "b".utf8ByteSize ≤ 262144
    decide
  parents := Nat.zero_le _
  parentsNodup := List.nodup_nil
  dependencies := few
  dependenciesUnique := by
    rw [assertUniqueCanonical_ok]
    constructor
    · intro v mem
      obtain ⟨d, -, rfl⟩ := List.mem_map.mp mem
      exact canonicalize_isOk d.canonicalizable_json
    · change ((dependencies.map RevisionDependency.toJson).map Value.normalize).Nodup
      rw [List.map_map, List.nodup_map_iff_inj_on distinct]
      intro d memD e memE same
      exact toJson_inj ((channel d memD).trans (channel e memE).symm) same
  channel := channel
  metadata := rfl

theorem both_accepted : validateRevision (some both.toJson) = .ok both :=
  digested_accepted (referring_valid (by decide) (by decide) (by decide)) (by decide +kernel)
    (by decide +kernel)

theorem weaker_accepted : validateRevision (some weaker.toJson) = .ok weaker :=
  digested_accepted (referring_valid (by decide) (by decide) (by decide)) (by decide +kernel)
    (by decide +kernel)

/-- A reference that requires an active agreement is dropped, and the report is empty. -/
theorem compareRevisions_hides :
    validateRevision (some both.toJson) = .ok both ∧
    validateRevision (some weaker.toJson) = .ok weaker ∧
    both.payload.toSlot = weaker.payload.toSlot ∧
    ∃ comparison, compareRevisions (some weaker.toJson) (some both.toJson) = .ok comparison ∧
      comparison.dependencies.Empty ∧
      ¬ SameReferences weaker.payload.dependencies both.payload.dependencies := by
  obtain ⟨comparison, run, empty⟩ :=
    compareRevisions_empty rfl rfl both_accepted weaker_accepted rfl
  have first : firsts both.payload.dependencies = weaker.payload.dependencies := by decide +kernel
  refine ⟨both_accepted, weaker_accepted, rfl, comparison, run, empty.mpr ?_, fun same => ?_⟩
  · rw [first]
    exact fun d => Iff.rfl
  · have lost : ¬ ∀ d ∈ both.payload.dependencies, d ∈ weaker.payload.dependencies := by
      decide +kernel
    exact lost fun d mem => (same d).mpr mem

/-- The same references are reported as no difference. -/
theorem compareRevisions_dependencies_weaker :
    ∃ comparison, compareRevisions (some weaker.toJson) (some weaker.toJson) = .ok comparison ∧
      comparison.dependencies.Empty := by
  obtain ⟨comparison, run, exact⟩ :=
    compareRevisions_dependencies rfl rfl weaker_accepted weaker_accepted rfl
  have distinct : Comparable weaker.payload.dependencies weaker.payload.dependencies :=
    Or.inl (by decide +kernel)
  exact ⟨comparison, run, (exact.mpr distinct).mpr fun d => Iff.rfl⟩

end Demo

end Knowledger.Web
