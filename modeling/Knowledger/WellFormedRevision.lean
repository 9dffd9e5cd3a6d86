import Knowledger.WellFormed

/-!
# Valid revisions

What `validateRevision` accepts: the payload's limits, and its digest.  A revision it
returned is accepted again in its canonical form (`validateRevision_canonical`).
-/

namespace Knowledger

open Js

/-! ## No agreement id -/

theorem noAgreementIdItems_ok {items : List Value} {path : String} {index : Nat} {u : Unit} :
    noAgreementIdItems items path index = .ok u →
      ∀ v ∈ items, ∃ p, assertNoAgreementId v p = .ok () := by
  induction items generalizing index with
  | nil => exact fun _ _ mem => nomatch mem
  | cons v rest ih =>
      intro run
      rw [noAgreementIdItems] at run
      obtain ⟨_, head, tail⟩ := bind_ok.mp run
      intro w mem
      rcases List.mem_cons.mp mem with rfl | later
      · exact ⟨_, head⟩
      · exact ih tail w later

theorem noAgreementIdItems_of {items : List Value}
    (each : ∀ v ∈ items, ∀ p, assertNoAgreementId v p = .ok ()) (path : String) (index : Nat) :
    noAgreementIdItems items path index = .ok () := by
  induction items generalizing index with
  | nil => rfl
  | cons v rest ih =>
      rw [noAgreementIdItems, each v (by simp), ok_bind, ih fun w mem => each w (by simp [mem])]

theorem noAgreementIdFields_ok {fields : Fields} {path : String} {u : Unit} :
    noAgreementIdFields fields path = .ok u →
      ∀ f ∈ fields, ∃ p, assertNoAgreementId f.2 p = .ok () := by
  induction fields with
  | nil => exact fun _ _ mem => nomatch mem
  | cons f rest ih =>
      obtain ⟨key, v⟩ := f
      intro run
      rw [noAgreementIdFields] at run
      obtain ⟨_, head, tail⟩ := bind_ok.mp run
      intro g mem
      rcases List.mem_cons.mp mem with rfl | later
      · exact ⟨_, head⟩
      · exact ih tail g later

theorem noAgreementIdFields_of {fields : Fields}
    (each : ∀ f ∈ fields, ∀ p, assertNoAgreementId f.2 p = .ok ()) (path : String) :
    noAgreementIdFields fields path = .ok () := by
  induction fields with
  | nil => rfl
  | cons f rest ih =>
      obtain ⟨key, v⟩ := f
      rw [noAgreementIdFields, each (key, v) (by simp), ok_bind,
        ih fun g mem => each g (by simp [mem])]

/-- Whether a value is free of agreement ids depends neither on the path it is reported
under nor on the order of its properties. -/
def AgreementFreeIff (v : Value) : Prop :=
  ∀ p q, assertNoAgreementId v p = .ok () ↔ assertNoAgreementId v.normalize q = .ok ()

theorem agreementFree_iff (v : Value) : AgreementFreeIff v := by
  induction v using Value.ind with
  | null => intro p q; simp [assertNoAgreementId]
  | bool b => intro p q; simp [assertNoAgreementId]
  | num n => intro p q; simp [assertNoAgreementId]
  | str s => intro p q; simp [assertNoAgreementId]
  | arr items same =>
      intro p q
      rw [Value.normalize_arr, assertNoAgreementId, assertNoAgreementId]
      constructor
      · intro run
        refine noAgreementIdItems_of (fun w mem r => ?_) q 0
        obtain ⟨v, inside, rfl⟩ := List.mem_map.mp mem
        obtain ⟨r', free⟩ := noAgreementIdItems_ok run v inside
        exact (same v inside r' r).mp free
      · intro run
        refine noAgreementIdItems_of (fun v mem r => ?_) p 0
        obtain ⟨r', free⟩ := noAgreementIdItems_ok run _ (List.mem_map_of_mem mem)
        exact (same v mem r r').mpr free
  | obj fields same =>
      intro p q
      have sorted : ∀ f, f ∈ Fields.normalize fields ↔ ∃ g ∈ fields, (g.1, g.2.normalize) = f := by
        intro f
        rw [Fields.normalize, List.mem_insertionSort, normalizeFields_eq, List.mem_map]
      rw [Value.normalize_obj, assertNoAgreementId, assertNoAgreementId]
      simp only [bind_ok, valid_ok, exists_const, Fields.get_normalize, Option.isSome_map]
      refine and_congr_right fun _ => ⟨fun run => ?_, fun run => ?_⟩
      · refine noAgreementIdFields_of (fun f mem r => ?_) q
        obtain ⟨g, inside, rfl⟩ := (sorted f).mp mem
        obtain ⟨r', free⟩ := noAgreementIdFields_ok run g inside
        exact (same g inside r' r).mp free
      · refine noAgreementIdFields_of (fun g mem r => ?_) p
        obtain ⟨r', free⟩ := noAgreementIdFields_ok run _ ((sorted _).mpr ⟨g, mem, rfl⟩)
        exact (same g mem r r').mpr free

theorem assertNoAgreementId_normalize (fs : Fields) (path : String) :
    outcome (assertNoAgreementId (.obj fs.normalize) path) =
      outcome (assertNoAgreementId (.obj fs) path) := by
  rw [← Value.normalize_obj]
  exact outcome_ext fun _ => (agreementFree_iff _ _ _).symm

/-- An object literal with no such property. -/
theorem assertNoAgreementId_record {l : List (String × Option Value)}
    (absent : ∀ f ∈ l, f.1 ≠ "agreement_id")
    (each : ∀ f ∈ l, ∀ v ∈ f.2, ∀ p, assertNoAgreementId v p = .ok ()) (path : String) :
    assertNoAgreementId (record l) path = .ok () := by
  have missing : ((recordFields l).get "agreement_id").isSome = false := by
    rw [Bool.eq_false_iff, Ne, Fields.get_isSome, mem_keys_recordFields]
    rintro ⟨f, mem, _, same⟩
    exact absent f mem (Str.wellFormed.inj same)
  rw [record, assertNoAgreementId, missing, Bool.not_false, valid_true, ok_bind]
  refine noAgreementIdFields_of (fun f mem => ?_) path
  obtain ⟨g, inside, some⟩ := List.mem_filterMap.mp mem
  obtain ⟨v, present, rfl⟩ := Option.map_eq_some_iff.mp some
  exact each g inside v present

theorem assertNoAgreementId_text {pattern : String → Prop} (t : Subtype pattern)
    (path : String) : assertNoAgreementId (jsonText t) path = .ok () := by
  simp [jsonText, jsonString, assertNoAgreementId]

theorem assertNoAgreementId_string (s path : String) :
    assertNoAgreementId (jsonString s) path = .ok () := by
  simp [jsonString, assertNoAgreementId]

theorem assertNoAgreementId_nat (n : Nat) (path : String) :
    assertNoAgreementId (jsonNat n) path = .ok () := by
  simp [jsonNat, assertNoAgreementId]

theorem assertNoAgreementId_arr {α : Type} {toJson : α → Value} {all : List α}
    (each : ∀ a ∈ all, ∀ p, assertNoAgreementId (toJson a) p = .ok ()) (path : String) :
    assertNoAgreementId (.arr (all.map toJson)) path = .ok () := by
  rw [assertNoAgreementId]
  refine noAgreementIdItems_of (fun v mem => ?_) path 0
  obtain ⟨a, inside, rfl⟩ := List.mem_map.mp mem
  exact each a inside

/-! ## Dependencies, assertions, metadata -/

theorem RevisionDependency.canonicalizable_json (d : RevisionDependency) :
    canonicalizable d.toJson 0 = true := by
  simp [RevisionDependency.toJson, canonicalizable_record, maxCanonicalDepth]

theorem SharedAssertion.canonicalizable_json (a : SharedAssertion) :
    canonicalizable a.toJson 0 = true := by
  simp [SharedAssertion.toJson, canonicalizable_record, maxCanonicalDepth]

theorem validateDependency_normalize (channelId : Id) (index : Nat) (v : Value) :
    outcome (validateDependency channelId index v.normalize) =
      outcome (validateDependency channelId index v) := by
  have record := assertRecord_normalize (some v) (at_ "dependencies" index)
  rw [Option.map_some] at record
  simp only [validateDependency, outcome_bind, record, map_bind, assertKeys_normalize,
    Fields.get_normalize, assertId_normalize, assertDigest_normalize, assertUsageScope_normalize,
    assertPattern_normalize, parseEnum_normalize, isString_normalize, canonicalize_obj_normalize]

theorem validateDependency_json (d : RevisionDependency) (index : Nat) :
    validateDependency d.channelId index d.toJson = .ok d := by
  have fits := d.canonicalizable_json
  have enforcement : parseEnum Enforcement.text enforcements
      (some (jsonString d.enforcement.text)) = some d.enforcement :=
    parseEnum_json (by cases d.enforcement <;> decide)
  rw [validateDependency, RevisionDependency.toJson, assertRecord_record]
  simp only [RevisionDependency.toJson] at fits
  simp [assertKeys_recordFields, enforcement, assertPattern_json]
  exact (canonicalize_then fits _).trans (cloneTyped_json d.canonicalizable_json)

theorem validateDependency_channel (channelId : Id) (index : Nat) (v : Value) :
    Ensures (fun d => d.channelId = channelId) (validateDependency channelId index v) := by
  unfold validateDependency
  repeat with_reducible refine Ensures.bind fun _ _ => ?_
  exact Ensures.clone rfl

theorem validateSharedAssertion_normalize (index : Nat) (v : Value) :
    outcome (validateSharedAssertion index v.normalize) =
      outcome (validateSharedAssertion index v) := by
  have record := assertRecord_normalize (some v) (at_ "shared_assertions" index)
  rw [Option.map_some] at record
  simp only [validateSharedAssertion, outcome_bind, record, map_bind, assertKeys_normalize,
    Fields.get_normalize, assertId_normalize, assertNonEmptyString_normalize,
    isString_normalize, canonicalize_obj_normalize]

theorem validateSharedAssertion_json (a : SharedAssertion) (index : Nat) :
    validateSharedAssertion index a.toJson = .ok a := by
  have fits := a.canonicalizable_json
  rw [validateSharedAssertion, SharedAssertion.toJson, assertRecord_record]
  simp only [SharedAssertion.toJson] at fits
  simp [assertKeys_recordFields]
  exact (canonicalize_then fits _).trans (cloneTyped_json a.canonicalizable_json)

/-- The shared assertions are pairwise different. -/
def RevisionMetadata.Valid (m : RevisionMetadata) : Prop :=
  assertUniqueCanonical (m.sharedAssertions.map SharedAssertion.toJson)
    "revision.payload.metadata.shared_assertions" = .ok ()

theorem validateMetadata_normalize (o : Option Value) :
    outcome (validateMetadata (o.map Value.normalize)) = outcome (validateMetadata o) := by
  simp only [validateMetadata, outcome_bind, assertRecord_normalize, map_bind,
    assertKeys_normalize, Fields.get_normalize, assertId_normalize,
    assertNonEmptyString_normalize, parseEnum_normalize, assertArray_normalize,
    eachAt_normalize, validateSharedAssertion_normalize, implies_true]

theorem validateMetadata_json {m : RevisionMetadata} (valid : m.Valid) :
    validateMetadata (some m.toJson) = .ok m := by
  have kind : parseEnum SourceKind.text sourceKinds
      (some (jsonString m.sourceKind.text)) = some m.sourceKind :=
    parseEnum_json (by cases m.sourceKind <;> decide)
  have assertions : eachAt validateSharedAssertion 0
      (m.sharedAssertions.map SharedAssertion.toJson) = .ok m.sharedAssertions :=
    eachAt_json (fun i a _ => validateSharedAssertion_json a i) 0
  have unique : assertUniqueCanonical (m.sharedAssertions.map SharedAssertion.toJson)
    "revision.payload.metadata.shared_assertions" = .ok () := valid
  rw [validateMetadata, RevisionMetadata.toJson, assertRecord_record]
  simp [assertKeys_recordFields, kind, assertions, unique]

theorem validateMetadata_valid (o : Option Value) :
    Ensures RevisionMetadata.Valid (validateMetadata o) := by
  unfold validateMetadata
  repeat with_reducible refine Ensures.bind fun _ _ => ?_
  exact Ensures.ok ‹assertUniqueCanonical _ _ = .ok _›

/-! ## Payloads -/

/-- The limits a payload keeps. -/
structure DocumentRevisionPayload.Valid (p : DocumentRevisionPayload) : Prop where
  body : p.bodyMarkdown.1.utf8ByteSize ≤ 262144
  parents : p.parents.length ≤ 2
  parentsNodup : p.parents.Nodup
  dependencies : p.dependencies.length ≤ 32
  dependenciesUnique : assertUniqueCanonical (p.dependencies.map RevisionDependency.toJson)
    "revision.payload.dependencies" = .ok ()
  channel : ∀ d ∈ p.dependencies, d.channelId = p.channelId
  metadata : p.metadata.Valid

theorem DocumentRevisionPayload.agreementFree (p : DocumentRevisionPayload) (path : String) :
    assertNoAgreementId p.toJson path = .ok () := by
  have dependency : ∀ d : RevisionDependency, ∀ q, assertNoAgreementId d.toJson q = .ok () :=
    fun d q => assertNoAgreementId_record (by simp) (by simp [assertNoAgreementId_string]) q
  have assertion : ∀ a : SharedAssertion, ∀ q, assertNoAgreementId a.toJson q = .ok () :=
    fun a q => assertNoAgreementId_record (by simp) (by simp [assertNoAgreementId_string]) q
  have metadata : ∀ q, assertNoAgreementId p.metadata.toJson q = .ok () :=
    fun q => assertNoAgreementId_record (by simp)
      (by simp [assertNoAgreementId_string, assertNoAgreementId_arr, assertion]) q
  exact assertNoAgreementId_record (by simp)
    (by simp [assertNoAgreementId_string, assertNoAgreementId_nat, assertNoAgreementId_arr,
      assertNoAgreementId_text, dependency, metadata]) path

theorem validatePayload_normalize (fs : Fields) :
    outcome (validatePayload fs.normalize) = outcome (validatePayload fs) := by
  have digestItem : ∀ (v : Value) (label : String),
      assertDigest v.normalize label = assertDigest v label :=
    fun v label => assertDigest_normalize (some v) label
  simp only [validatePayload, outcome_bind, map_bind, assertKeys_normalize,
    Fields.get_normalize, assertId_normalize, assertUsageScope_normalize,
    assertNonEmptyString_normalize, isString_normalize, isNat_normalize, assertArray_normalize,
    List.length_map, eachAt_normalize, digestItem, validateDependency_normalize,
    validateMetadata_normalize, assertNoAgreementId_normalize, implies_true]

theorem validatePayload_json {p : DocumentRevisionPayload} (valid : p.Valid) {l : Fields}
    (written : Value.obj l = p.toJson) : validatePayload l = .ok p := by
  have parents : eachAt (fun index v => assertDigest v (at_ "revision.payload.parents" index)) 0
      (p.parents.map jsonText) = .ok p.parents :=
    eachAt_json (fun _ d _ => assertDigest_json _ d) 0
  have parentsUnique : assertUniqueCanonical (p.parents.map jsonText)
      "revision.payload.parents" = .ok () :=
    (assertUniqueCanonical_strings _ Subtype.val_injective).mpr valid.parentsNodup
  have dependencies : eachAt (validateDependency p.channelId) 0
      (p.dependencies.map RevisionDependency.toJson) = .ok p.dependencies :=
    eachAt_json (fun i d mem => valid.channel d mem ▸ validateDependency_json d i) 0
  have free := p.agreementFree "payload"
  rw [DocumentRevisionPayload.toJson, record, Value.obj.injEq] at written
  subst written
  simp only [DocumentRevisionPayload.toJson, record] at free
  simp [validatePayload, assertKeys_recordFields, parents, parentsUnique, dependencies,
    valid.dependenciesUnique, validateMetadata_json valid.metadata, valid.body,
    valid.parents, valid.dependencies, free]

theorem eachAt_forall {α : Type} {P : α → Prop} {check : Nat → Value → Except DomainError α}
    (each : ∀ i v, Ensures P (check i v)) {items : List Value} {index : Nat} {all : List α}
    (run : eachAt check index items = .ok all) : ∀ a ∈ all, P a := by
  induction items generalizing index all with
  | nil =>
      cases run
      exact fun _ mem => nomatch mem
  | cons v rest ih =>
      simp only [eachAt, bind_ok, pure_ok] at run
      obtain ⟨a, head, others, tail, rfl⟩ := run
      intro b mem
      rcases List.mem_cons.mp mem with rfl | later
      · exact each index v _ head
      · exact ih tail b later

theorem validatePayload_valid (fs : Fields) :
    Ensures DocumentRevisionPayload.Valid (validatePayload fs) := by
  unfold validatePayload
  repeat with_reducible refine Ensures.bind fun _ _ => ?_
  rename_i body bodySize rawParents _ _ parentsShort parents parentsRun _ parentsUnique
    rawDependencies _ _ dependenciesShort dependencies dependenciesRun _ dependenciesUnique
    metadata metadataRun _ _
  simp only [valid_ok, decide_eq_true_eq] at bodySize parentsShort dependenciesShort
  exact Ensures.ok
    { body := bodySize
      parents := eachAt_length parentsRun ▸ parentsShort
      parentsNodup := (assertUniqueCanonical_strings _ Subtype.val_injective).mp parentsUnique
      dependencies := eachAt_length dependenciesRun ▸ dependenciesShort
      dependenciesUnique := dependenciesUnique
      channel := eachAt_forall (validateDependency_channel _) dependenciesRun
      metadata := validateMetadata_valid _ _ metadataRun }

/-! ## Revisions -/

section Revision

variable [Sha256]

/-- The payload is valid, small enough, and named by its digest. -/
structure DocumentRevision.Valid (r : DocumentRevision) : Prop where
  payload : r.payload.Valid
  text : ∃ text, canonicalize r.payload.toJson = .ok text ∧ text.utf8ByteSize ≤ 524288 ∧
    r.revisionDigest.1 = "sha256:" ++ Sha256.hexDigest text

theorem validateRevision_normalize (o : Option Value) :
    outcome (validateRevision (o.map Value.normalize)) = outcome (validateRevision o) := by
  simp only [validateRevision, outcome_bind, assertRecord_normalize, map_bind,
    assertKeys_normalize, Fields.get_normalize, assertDigest_normalize,
    validatePayload_normalize]

theorem validateRevision_json {r : DocumentRevision} (valid : r.Valid) :
    validateRevision (some r.toJson) = .ok r := by
  obtain ⟨text, canonical, small, digest⟩ := valid.text
  have payload : ∀ {l : Fields}, Value.obj l = r.payload.toJson →
      validatePayload l = .ok r.payload := validatePayload_json valid.payload
  obtain ⟨l, written⟩ : ∃ l, Value.obj l = r.payload.toJson := ⟨_, rfl⟩
  have read : assertRecord (some r.payload.toJson) "revision.payload" = .ok l := by
    rw [← written]
    rfl
  rw [validateRevision, DocumentRevision.toJson, assertRecord_record]
  simp [assertKeys_recordFields, read, payload written, canonical, canonicalDigest, ← digest,
    small]

theorem validateRevision_valid (o : Option Value) :
    Ensures DocumentRevision.Valid (validateRevision o) := by
  unfold validateRevision
  repeat with_reducible refine Ensures.bind fun _ _ => ?_
  rename_i payload payloadRun text canonical _ small expected digest _ same
  simp only [canonicalDigest, canonical, ok_bind, pure_ok] at digest
  simp only [valid_ok, decide_eq_true_eq] at small
  simp only [ensure_ok, beq_iff_eq] at same
  exact Ensures.ok
    { payload := validatePayload_valid _ _ payloadRun
      text := ⟨text, canonical, small, same.trans digest.symm⟩ }

end Revision

end Knowledger
