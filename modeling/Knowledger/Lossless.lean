import Knowledger.Once
import Knowledger.Lib.JsonEquality

/-!
# What the validators return

A validator rebuilds the record it checks field by field.  Each field check returns what it
read (`assertId_reads` and its siblings), and no property of the input is left over, so the
rebuilt record is the input with its properties in another order (`normalize_record`).  A
command that validates a record, sets some of its fields and writes it back therefore keeps
every other field (`Execution.keeps_fields`).
-/

namespace Knowledger

open Js Txn

/-! ## Fields -/

section Reads

variable {o : Option Value} {label message code : String} {options : DomainErrorOptions}

theorem assertRecord_ok {fs : Fields} (run : assertRecord o label = .ok fs) :
    o = some (.obj fs) := by
  cases o with
  | none => cases run
  | some v =>
      cases v with
      | obj fields =>
          cases run
          rfl
      | _ => cases run

theorem assertPattern_reads {pattern : String → Bool} {s : {s : String // pattern s = true}}
    (run : assertPattern pattern o message = .ok s) : o = some (jsonString s.1) := by
  unfold assertPattern at run
  split at run
  next text =>
    split_ifs at run
    · cases run
      rfl
    · cases run
  next => cases run

theorem assertId_reads {id : Id} (run : assertId o label = .ok id) :
    o = some (jsonString id.1) :=
  assertPattern_reads run

theorem assertDigest_reads {d : Digest} (run : assertDigest o label = .ok d) :
    o = some (jsonString d.1) :=
  assertPattern_reads run

theorem assertUsageScope_reads {u : UsageScope} (run : assertUsageScope o label = .ok u) :
    o = some (jsonString u.1) :=
  assertPattern_reads run

theorem assertNonEmptyString_reads {n : Nat} {t : Text n}
    (run : assertNonEmptyString o label n = .ok t) : o = some (jsonString t.1) := by
  unfold assertNonEmptyString at run
  split at run
  next s =>
    cases s with
    | illFormed units unpaired => cases run
    | wellFormed s =>
        obtain ⟨_, same, checked⟩ := bind_ok.mp run
        cases same
        split_ifs at checked
        · cases checked
          rfl
        · cases checked
  next => cases run

theorem assertSafeInteger_reads {minimum : Nat} {n : SafeInt minimum}
    (run : assertSafeInteger o label minimum = .ok n) : o = some (jsonNat n.1) := by
  unfold assertSafeInteger at run
  split at run
  next m =>
    split_ifs at run with fits
    · cases run
      exact congrArg (fun i => some (Value.num (.int i))) (Int.toNat_of_nonneg fits.2.2).symm
    · cases run
  next => cases run

theorem assertVersion_reads {v : ConfigVersion} (run : assertVersion o label = .ok v) :
    o = some v.toJson := by
  unfold assertVersion at run
  split at run
  next n =>
    obtain ⟨m, checked, rfl⟩ := map_ok.mp run
    exact assertSafeInteger_reads checked
  next =>
    obtain ⟨id, checked, rfl⟩ := map_ok.mp run
    exact assertId_reads checked

theorem assertBool_reads {b : Bool} (run : assertBool o label = .ok b) :
    o = some (.bool b) := by
  unfold assertBool at run
  split at run
  · cases run
    rfl
  · cases run

theorem assertArray_reads {items : List Value} (run : assertArray o label = .ok items) :
    o = some (.arr items) := by
  unfold assertArray at run
  split at run
  · cases run
    rfl
  · cases run

theorem isString_reads {text : String} (same : isString o text = true) :
    o = some (jsonString text) := by
  unfold isString at same
  split at same
  next s => rw [beq_iff_eq.mp same, jsonString]
  next => cases same

theorem isNat_reads {n : Nat} (same : isNat o n = true) : o = some (jsonNat n) := by
  unfold isNat at same
  split at same
  next m => rw [beq_iff_eq.mp same, jsonNat]
  next => cases same

theorem parseEnum_reads {α : Type} {text : α → String} {all : List α} {a : α}
    (found : parseEnum text all o = some a) : o = some (jsonString (text a)) := by
  unfold parseEnum at found
  split at found
  next s =>
    have same : (text a == s) = true := List.find?_some (p := fun b => text b == s) found
    rw [beq_iff_eq.mp same, jsonString]
  next => cases found

end Reads

/-- The property is written as `json`, up to the order of properties inside it. -/
def Reads (o : Option Value) (json : Value) : Prop := o.map Value.normalize = some json.normalize

/-- A property that may be `undefined` is written as `json`. -/
def ReadsOption (o json : Option Value) : Prop := o.map Value.normalize = json.map Value.normalize

theorem Reads.of_eq {o : Option Value} {json : Value} (same : o = some json) : Reads o json := by
  rw [same]
  rfl

theorem Reads.arr {items all : List Value} {o : Option Value} (read : o = some (.arr items))
    (each : items.map Value.normalize = all.map Value.normalize) : Reads o (.arr all) := by
  rw [read, Reads, Option.map_some, Value.normalize_arr, Value.normalize_arr, each]

theorem optionally_reads {α : Type} {check : Option Value → Except DomainError α}
    {toJson : α → Value} {o : Option Value} {a : Option α}
    (each : ∀ {b}, check o = .ok b → Reads o (toJson b)) (run : optionally check o = .ok a) :
    ReadsOption o (a.map toJson) := by
  cases o with
  | none =>
      cases run
      rfl
  | some v =>
      obtain ⟨b, checked, rfl⟩ := map_ok.mp run
      exact each checked

theorem eachAt_reads {α : Type} {check : Nat → Value → Except DomainError α} {toJson : α → Value}
    {items : List Value} {index : Nat} {all : List α}
    (each : ∀ {i v a}, v ∈ items → check i v = .ok a → v.normalize = (toJson a).normalize)
    (run : eachAt check index items = .ok all) :
    items.map Value.normalize = (all.map toJson).map Value.normalize := by
  induction items generalizing index all with
  | nil =>
      cases run
      rfl
  | cons v rest ih =>
      simp only [eachAt, bind_ok, pure_ok] at run
      obtain ⟨a, head, others, tail, rfl⟩ := run
      rw [List.map_cons, List.map_cons, List.map_cons, each List.mem_cons_self head,
        ih (fun mem => each (List.mem_cons_of_mem _ mem)) tail]

/-! ## Records -/

theorem get_recordFields_of_mem {l : List (String × Option Value)}
    (names : (l.map Prod.fst).Nodup) {f : String × Option Value} (mem : f ∈ l) :
    (recordFields l).get f.1 = f.2 := by
  induction l with
  | nil => cases mem
  | cons g rest ih =>
      obtain ⟨fresh, others⟩ := List.nodup_cons.mp names
      rw [get_recordFields_cons]
      rcases List.mem_cons.mp mem with rfl | later
      · have absent : (recordFields rest).get f.1 = none := by
          rw [← Option.not_isSome_iff_eq_none, Fields.get_isSome, mem_keys_recordFields]
          rintro ⟨h, inside, _, same⟩
          exact fresh (List.mem_map.mpr ⟨h, inside, Str.wellFormed.inj same⟩)
        rw [if_pos rfl, absent, Option.or_none]
      · have differs : g.1 ≠ f.1 := fun same =>
          fresh (List.mem_map.mpr ⟨f, later, same.symm⟩)
        rw [if_neg differs, Option.none_or, ih others later]

theorem nodup_keys_recordFields {l : List (String × Option Value)}
    (names : (l.map Prod.fst).Nodup) : (recordFields l).keys.Nodup := by
  have sub : (recordFields l).keys.Sublist (l.map fun f => Str.wellFormed f.1) := by
    induction l with
    | nil => exact List.Sublist.refl _
    | cons f rest ih =>
        obtain ⟨name, value⟩ := f
        have tail := ih (List.nodup_cons.mp names).2
        cases value with
        | none => exact tail.cons _
        | some v => exact tail.cons_cons _
  refine sub.nodup ?_
  rw [show (fun f : String × Option Value => Str.wellFormed f.1) = Str.wellFormed ∘ Prod.fst
    from rfl, ← List.map_map]
  exact names.map fun _ _ => Str.wellFormed.inj

/-- An object whose properties are all listed in `l`, with the values of `l`, is the record
of `l` in another order. -/
theorem normalize_record {fs : Fields} {l : List (String × Option Value)}
    {required optional : List String} {label : String} {u : Unit} (plain : fs.keys.Nodup)
    (keys : assertKeys fs required optional label = .ok u)
    (different : decide (l.map Prod.fst).Nodup = true)
    (listed : ((required ++ optional).all fun k => (l.map Prod.fst).contains k) = true)
    (each : ∀ f ∈ l, ReadsOption (fs.get f.1) f.2) :
    (Value.obj fs).normalize = (record l).normalize := by
  obtain ⟨known, _⟩ := (assertKeys_ok label).mp keys
  have names := of_decide_eq_true different
  have all : ∀ k ∈ required ++ optional, k ∈ l.map Prod.fst := fun k mem =>
    List.contains_iff_mem.mp (List.all_eq_true.mp listed k mem)
  rw [record, Value.normalize_obj, Value.normalize_obj]
  have nodup := nodup_keys_recordFields names
  refine congrArg Value.obj (Fields.normalize_ext plain nodup fun k v => ?_)
  cases k with
  | illFormed units unpaired =>
      have absent : ∀ {gs : Fields}, Str.illFormed units unpaired ∉ gs.keys →
          (Str.illFormed units unpaired, v) ∉ gs.normalize := fun missing mem =>
        missing (Fields.mem_keys_normalize.mp (List.mem_map.mpr ⟨_, mem, rfl⟩))
      have left : Str.illFormed units unpaired ∉ fs.keys := fun mem => by
        cases known _ mem
      have right : Str.illFormed units unpaired ∉ (recordFields l).keys := fun mem => by
        obtain ⟨f, _, _, same⟩ := mem_keys_recordFields.mp mem
        cases same
      exact iff_of_false (absent left) (absent right)
  | wellFormed name =>
      rw [← Fields.get_eq_some (Fields.nodup_keys_normalize.mpr plain),
        ← Fields.get_eq_some (Fields.nodup_keys_normalize.mpr nodup), Fields.get_normalize,
        Fields.get_normalize]
      by_cases inside : name ∈ l.map Prod.fst
      · obtain ⟨f, mem, rfl⟩ := List.mem_map.mp inside
        rw [get_recordFields_of_mem names mem, each f mem]
      · have left : fs.get name = none := by
          rw [← Option.not_isSome_iff_eq_none, Fields.get_isSome]
          intro mem
          exact inside (all name (List.contains_iff_mem.mp (known _ mem)))
        have right : (recordFields l).get name = none := by
          rw [← Option.not_isSome_iff_eq_none, Fields.get_isSome, mem_keys_recordFields]
          rintro ⟨f, mem, _, same⟩
          exact inside (List.mem_map.mpr ⟨f, mem, Str.wellFormed.inj same⟩)
        rw [left, right]

/-- The fields of a plain object are plain. -/
theorem plain_get {fs : Fields} (plain : (Value.obj fs).plain = true) {name : String} {v : Value}
    (found : fs.get name = some v) : v.plain = true := by
  obtain ⟨nodup, inside⟩ := plain_obj.mp plain
  exact inside _ ((Fields.get_eq_some nodup).mp found)

/-! ## Parts -/

theorem validateActor_reads {o : Option Value} {label code message : String}
    {options : DomainErrorOptions} {a : Actor} (plain : ∀ v ∈ o, v.plain = true)
    (run : validateActor o label code message options = .ok a) : Reads o a.toJson := by
  simp only [validateActor, bind_ok, expect_ok, pure_ok] at run
  obtain ⟨fs, record, _, keys, org, orgRead, actor, actorRead, kind, kindRead, rfl⟩ := run
  obtain rfl := assertRecord_ok record
  have nodup := (plain_obj.mp (plain _ rfl)).1
  refine congrArg some (normalize_record nodup keys rfl rfl ?_)
  simp only [List.forall_mem_cons]
  exact ⟨Reads.of_eq (assertId_reads orgRead), Reads.of_eq (assertId_reads actorRead),
    Reads.of_eq (parseEnum_reads kindRead), List.forall_mem_nil _⟩

theorem assertSlotShape_reads {fs : Fields} {slot : Slot} (run : assertSlotShape fs = .ok slot) :
    ∀ f ∈ slot.fields, ReadsOption (fs.get f.1) f.2 := by
  simp only [assertSlotShape, bind_ok, pure_ok] at run
  obtain ⟨channel, channelRead, document, documentRead, context, contextRead, scope, scopeRead,
    usage, usageRead, rfl⟩ := run
  simp only [Slot.fields, List.forall_mem_cons]
  exact ⟨Reads.of_eq (assertId_reads channelRead), Reads.of_eq (assertId_reads documentRead),
    Reads.of_eq (assertId_reads contextRead), Reads.of_eq (assertId_reads scopeRead),
    Reads.of_eq (assertUsageScope_reads usageRead), List.forall_mem_nil _⟩

/-! ## Proposals, decisions, agreements -/

theorem validateProposal_reads {o : Option Value} {p : AgreementProposalRecord}
    (plain : ∀ v ∈ o, v.plain = true) (run : validateProposal o = .ok p) : Reads o p.toJson := by
  simp only [validateProposal, bind_ok, expect_ok, ensure_ok] at run
  obtain ⟨fs, record, _, keys, _, type, proposalId, idRead, digest, digestRead, policyId,
    policyRead, version, versionRead, epoch, epochRead, binding, bindingRead, config, configRead,
    status, statusRead, createdBy, actorRead, createdAt, atRead, counter, counterRead, agreementId,
    agreementRead, slot, slotRead, _, _, clone⟩ := run
  obtain rfl := cloneTyped_ok clone
  obtain rfl := assertRecord_ok record
  have object := plain _ rfl
  refine congrArg some (normalize_record (plain_obj.mp object).1 keys rfl rfl ?_)
  rw [List.forall_mem_append, List.forall_mem_append]
  refine ⟨⟨?_, assertSlotShape_reads slotRead⟩, ?_⟩
  · simp only [List.forall_mem_cons]
    exact ⟨Reads.of_eq (isString_reads type), Reads.of_eq (assertId_reads idRead),
      Reads.of_eq (assertDigest_reads digestRead), Reads.of_eq (assertId_reads policyRead),
      Reads.of_eq (assertSafeInteger_reads versionRead),
      Reads.of_eq (assertSafeInteger_reads epochRead),
      Reads.of_eq (assertSafeInteger_reads bindingRead),
      Reads.of_eq (assertVersion_reads configRead), Reads.of_eq (parseEnum_reads statusRead),
      validateActor_reads (fun v found => plain_get object found) actorRead,
      Reads.of_eq (assertNonEmptyString_reads atRead),
      Reads.of_eq (assertSafeInteger_reads counterRead), List.forall_mem_nil _⟩
  · simp only [List.forall_mem_cons]
    exact ⟨optionally_reads (fun checked => Reads.of_eq (assertId_reads checked)) agreementRead,
      List.forall_mem_nil _⟩

theorem assertRetracts_reads {kind : ApprovalKind} {o : Option Value} {id : Option Id}
    (run : assertRetracts kind o = .ok id) : ReadsOption o (id.map jsonText) := by
  unfold assertRetracts at run
  split_ifs at run
  · obtain ⟨target, checked, rfl⟩ := map_ok.mp run
    exact Reads.of_eq (assertId_reads checked)
  · simp only [bind_ok, valid_ok, pure_ok] at run
    obtain ⟨_, missing, rfl⟩ := run
    rw [Option.isNone_iff_eq_none.mp missing]
    rfl

theorem validateDecision_reads {o : Option Value} {d : ApprovalDecision}
    (plain : ∀ v ∈ o, v.plain = true) (run : validateDecision o = .ok d) : Reads o d.toJson := by
  simp only [validateDecision, bind_ok, expect_ok, valid_ok, Bool.and_eq_true] at run
  obtain ⟨fs, record, _, keys, _, ⟨contract, one⟩, decisionId, idRead, digest, digestRead,
    document, documentRead, context, contextRead, scope, scopeRead, channel, channelRead, policyId,
    policyRead, org, orgRead, actor, actorRead, subject, subjectRead, role, roleRead, proposal,
    proposalRead, usage, usageRead, version, versionRead, epoch, epochRead, binding, bindingRead,
    kind, kindRead, rationale, rationaleRead, at', atRead, retracts, retractsRead, _, _, _, _,
    clone⟩ := run
  obtain rfl := cloneTyped_ok clone
  obtain rfl := assertRecord_ok record
  have object := plain _ rfl
  refine congrArg some (normalize_record (plain_obj.mp object).1 keys rfl rfl ?_)
  simp only [List.forall_mem_cons]
  exact ⟨Reads.of_eq (isString_reads contract), Reads.of_eq (isNat_reads one),
    Reads.of_eq (assertId_reads idRead), Reads.of_eq (assertDigest_reads digestRead),
    Reads.of_eq (assertId_reads documentRead), Reads.of_eq (assertId_reads contextRead),
    Reads.of_eq (assertId_reads scopeRead), Reads.of_eq (assertUsageScope_reads usageRead),
    Reads.of_eq (assertId_reads channelRead), Reads.of_eq (assertId_reads policyRead),
    Reads.of_eq (assertSafeInteger_reads versionRead),
    Reads.of_eq (assertSafeInteger_reads epochRead),
    Reads.of_eq (assertSafeInteger_reads bindingRead), Reads.of_eq (assertId_reads orgRead),
    Reads.of_eq (assertId_reads actorRead), Reads.of_eq (assertId_reads subjectRead),
    Reads.of_eq (assertId_reads roleRead), Reads.of_eq (parseEnum_reads kindRead),
    Reads.of_eq (assertNonEmptyString_reads rationaleRead),
    Reads.of_eq (assertNonEmptyString_reads atRead), Reads.of_eq (assertId_reads proposalRead),
    assertRetracts_reads retractsRead, List.forall_mem_nil _⟩

/-- Items that are checked to be ids are the texts of the ids. -/
theorem eachAt_ids_reads {label : Nat → String} {items : List Value} {index : Nat} {ids : List Id}
    (run : eachAt (fun i v => assertId v (label i)) index items = .ok ids) :
    items.map Value.normalize = (ids.map jsonText).map Value.normalize := by
  rw [eachAt_ids run]

theorem validateAgreement_reads {o : Option Value} {a : AgreementRecord}
    (plain : ∀ v ∈ o, v.plain = true) (run : validateAgreement o = .ok a) : Reads o a.toJson := by
  simp only [validateAgreement, bind_ok, expect_ok, ensure_ok] at run
  obtain ⟨fs, record, _, keys, agreementId, idRead, proposal, proposalRead, digest, digestRead,
    policyId, policyRead, version, versionRead, epoch, epochRead, binding, bindingRead, items,
    itemsRead, _, _, ids, idsRead, _, _, status, statusRead, activatedBy, byRead, activatedAt,
    atRead, reason, reasonRead, changedBy, changedByRead, changedAt, changedAtRead, slot, slotRead,
    _, _, clone⟩ := run
  obtain rfl := cloneTyped_ok clone
  obtain rfl := assertRecord_ok record
  have object := plain _ rfl
  have inside : ∀ {name : String}, ∀ v ∈ fs.get name, v.plain = true := fun v found =>
    plain_get object found
  refine congrArg some (normalize_record (plain_obj.mp object).1 keys rfl rfl ?_)
  rw [List.forall_mem_append, List.forall_mem_append]
  refine ⟨⟨?_, assertSlotShape_reads slotRead⟩, ?_⟩
  · simp only [List.forall_mem_cons]
    exact ⟨Reads.of_eq (assertId_reads idRead), Reads.of_eq (assertId_reads proposalRead),
      Reads.of_eq (assertDigest_reads digestRead), Reads.of_eq (assertId_reads policyRead),
      Reads.of_eq (assertSafeInteger_reads versionRead),
      Reads.of_eq (assertSafeInteger_reads epochRead),
      Reads.of_eq (assertSafeInteger_reads bindingRead),
      Reads.arr (assertArray_reads itemsRead) (eachAt_ids_reads idsRead),
      Reads.of_eq (parseEnum_reads statusRead), validateActor_reads inside byRead,
      Reads.of_eq (assertNonEmptyString_reads atRead), List.forall_mem_nil _⟩
  · simp only [List.forall_mem_cons]
    exact ⟨optionally_reads (fun checked => Reads.of_eq (assertNonEmptyString_reads checked))
        reasonRead,
      optionally_reads (validateActor_reads inside) changedByRead,
      optionally_reads (fun checked => Reads.of_eq (assertNonEmptyString_reads checked))
        changedAtRead, List.forall_mem_nil _⟩

/-! ## Revisions -/

theorem validateDependency_reads {channelId : Id} {index : Nat} {v : Value}
    {d : RevisionDependency} (plain : v.plain = true)
    (run : validateDependency channelId index v = .ok d) : v.normalize = d.toJson.normalize := by
  simp only [validateDependency, bind_ok, expect_ok, valid_ok] at run
  obtain ⟨fs, record, _, keys, digest, digestRead, context, contextRead, usage, usageRead,
    relationship, relationshipRead, enforcement, enforcementRead, document, documentRead, scope,
    scopeRead, _, channelRead, _, _, clone⟩ := run
  obtain rfl := cloneTyped_ok clone
  obtain rfl := Option.some.inj (assertRecord_ok record)
  refine normalize_record (plain_obj.mp plain).1 keys rfl rfl ?_
  simp only [List.forall_mem_cons]
  exact ⟨Reads.of_eq (assertDigest_reads digestRead), Reads.of_eq (assertId_reads contextRead),
    Reads.of_eq (assertUsageScope_reads usageRead),
    Reads.of_eq (assertPattern_reads relationshipRead),
    Reads.of_eq (parseEnum_reads enforcementRead), Reads.of_eq (assertId_reads documentRead),
    Reads.of_eq (assertId_reads scopeRead), Reads.of_eq (isString_reads channelRead),
    List.forall_mem_nil _⟩

theorem validateSharedAssertion_reads {index : Nat} {v : Value} {a : SharedAssertion}
    (plain : v.plain = true) (run : validateSharedAssertion index v = .ok a) :
    v.normalize = a.toJson.normalize := by
  simp only [validateSharedAssertion, bind_ok, valid_ok] at run
  obtain ⟨fs, record, _, keys, assertionId, idRead, statement, statementRead, _, visibility, _, _,
    clone⟩ := run
  obtain rfl := cloneTyped_ok clone
  obtain rfl := Option.some.inj (assertRecord_ok record)
  refine normalize_record (plain_obj.mp plain).1 keys rfl rfl ?_
  simp only [List.forall_mem_cons]
  exact ⟨Reads.of_eq (assertId_reads idRead),
    Reads.of_eq (assertNonEmptyString_reads statementRead),
    Reads.of_eq (isString_reads visibility), List.forall_mem_nil _⟩

/-- The items of a plain array are plain. -/
theorem plain_items {fs : Fields} (plain : (Value.obj fs).plain = true) {name : String}
    {items : List Value} (found : fs.get name = some (.arr items)) :
    ∀ v ∈ items, v.plain = true :=
  plain_arr.mp (plain_get plain found)

theorem validateMetadata_reads {o : Option Value} {m : RevisionMetadata}
    (plain : ∀ v ∈ o, v.plain = true) (run : validateMetadata o = .ok m) : Reads o m.toJson := by
  simp only [validateMetadata, bind_ok, expect_ok, pure_ok] at run
  obtain ⟨fs, record, _, keys, author, authorRead, createdAt, atRead, kind, kindRead, items,
    itemsRead, assertions, assertionsRead, _, _, org, orgRead, rfl⟩ := run
  obtain rfl := assertRecord_ok record
  have object := plain _ rfl
  have items' := assertArray_reads itemsRead
  have each := plain_items object items'
  refine congrArg some (normalize_record (plain_obj.mp object).1 keys rfl rfl ?_)
  simp only [List.forall_mem_cons]
  exact ⟨Reads.of_eq (assertId_reads authorRead), Reads.of_eq (assertNonEmptyString_reads atRead),
    Reads.of_eq (parseEnum_reads kindRead),
    Reads.arr items' (eachAt_reads (fun mem => validateSharedAssertion_reads (each _ mem))
      assertionsRead),
    Reads.of_eq (assertId_reads orgRead), List.forall_mem_nil _⟩

theorem validatePayload_reads {fs : Fields} {p : DocumentRevisionPayload}
    (plain : (Value.obj fs).plain = true) (run : validatePayload fs = .ok p) :
    (Value.obj fs).normalize = p.toJson.normalize := by
  simp only [validatePayload, bind_ok, valid_ok, Bool.and_eq_true, Except.ok.injEq] at run
  obtain ⟨_, keys, _, ⟨contract, one⟩, revisionId, idRead, document, documentRead, context,
    contextRead, scope, scopeRead, usage, usageRead, channel, channelRead, _, visibility, title,
    titleRead, body, bodyRead, _, _, rawParents, parentsRead, _, _, parents, parentsChecked, _, _,
    rawDependencies, dependenciesRead, _, _, dependencies, dependenciesChecked, _, _, metadata,
    metadataRead, _, _, rfl⟩ := run
  have parentItems := assertArray_reads parentsRead
  have dependencyItems := assertArray_reads dependenciesRead
  have each := plain_items plain dependencyItems
  refine normalize_record (plain_obj.mp plain).1 keys rfl rfl ?_
  simp only [List.forall_mem_cons]
  exact ⟨Reads.of_eq (isString_reads contract), Reads.of_eq (isNat_reads one),
    Reads.of_eq (assertId_reads idRead), Reads.of_eq (assertId_reads documentRead),
    Reads.of_eq (assertId_reads contextRead), Reads.of_eq (assertId_reads scopeRead),
    Reads.of_eq (assertUsageScope_reads usageRead), Reads.of_eq (assertId_reads channelRead),
    Reads.of_eq (isString_reads visibility),
    Reads.of_eq (assertNonEmptyString_reads titleRead),
    Reads.of_eq (assertNonEmptyString_reads bodyRead),
    Reads.arr parentItems (eachAt_reads (fun _ checked => congrArg Value.normalize
      (Option.some.inj (assertDigest_reads checked))) parentsChecked),
    Reads.arr dependencyItems (eachAt_reads (fun mem => validateDependency_reads (each _ mem))
      dependenciesChecked),
    validateMetadata_reads (fun v found => plain_get plain found) metadataRead,
    List.forall_mem_nil _⟩

theorem validateRevision_reads [Sha256] {o : Option Value} {r : DocumentRevision}
    (plain : ∀ v ∈ o, v.plain = true) (run : validateRevision o = .ok r) : Reads o r.toJson := by
  simp only [validateRevision, bind_ok, valid_ok, ensure_ok, pure_ok] at run
  obtain ⟨fs, record, _, keys, digest, digestRead, inner, innerRead, payload, payloadRead, _, _, _,
    _, _, _, _, _, rfl⟩ := run
  obtain rfl := assertRecord_ok record
  have object := plain _ rfl
  have found := assertRecord_ok innerRead
  have same := validatePayload_reads (plain_get object found) payloadRead
  refine congrArg some (normalize_record (plain_obj.mp object).1 keys rfl rfl ?_)
  simp only [List.forall_mem_cons]
  refine ⟨Reads.of_eq (assertDigest_reads digestRead), ?_, List.forall_mem_nil _⟩
  rw [found]
  exact congrArg some same

/-! ## Policies and configuration -/

theorem validateRepresentatives_reads {required items : List Value} {index : Nat}
    {roles : List Id} {seen : List String} {all : List RoleRepresentative}
    (plain : ∀ v ∈ items, v.plain = true)
    (run : validateRepresentatives required index items roles seen = .ok all) :
    items.map Value.normalize = (all.map RoleRepresentative.toJson).map Value.normalize := by
  induction items generalizing index roles seen all with
  | nil =>
      simp only [validateRepresentatives, bind_ok, pure_ok] at run
      obtain ⟨_, _, rfl⟩ := run
      rfl
  | cons v rest ih =>
      simp only [validateRepresentatives, bind_ok, valid_ok, pure_ok] at run
      obtain ⟨fs, record, _, keys, role, roleRead, org, orgRead, actor, actorRead, _, _, _, _, _,
        _, _, _, normalized, clone, others, tail, rfl⟩ := run
      obtain rfl := cloneTyped_ok clone
      obtain rfl := Option.some.inj (assertRecord_ok record)
      have head := plain _ List.mem_cons_self
      rw [List.map_cons, List.map_cons, List.map_cons,
        ih (fun w mem => plain w (List.mem_cons_of_mem _ mem)) tail]
      refine congrArg (· :: _) (normalize_record (plain_obj.mp head).1 keys rfl rfl ?_)
      simp only [List.forall_mem_cons]
      exact ⟨Reads.of_eq (assertId_reads roleRead), Reads.of_eq (assertId_reads orgRead),
        Reads.of_eq (assertId_reads actorRead), List.forall_mem_nil _⟩

theorem validatePolicy_reads {o : Option Value} {p : AgreementPolicy}
    (plain : ∀ v ∈ o, v.plain = true) (run : validatePolicy o = .ok p) : Reads o p.toJson := by
  simp only [validatePolicy, bind_ok, valid_ok, Bool.and_eq_true, Except.ok.injEq] at run
  obtain ⟨fs, record, _, keys, _, ⟨contract, one⟩, policyId, idRead, version, versionRead,
    document, documentRead, context, contextRead, scope, scopeRead, usage, usageRead, channel,
    channelRead, epoch, epochRead, binding, bindingRead, acceptance, acceptanceRead, rawRoles,
    rolesRead, _, _, roles, rolesChecked, _, _, rawDecisions, decisionsRead, _, _, decisions,
    decisionsChecked, _, _, _, rule, rawReps, repsRead, _, _, reps, repsChecked, rfl⟩ := run
  obtain rfl := assertRecord_ok record
  have object := plain _ rfl
  have items := assertArray_reads repsRead
  refine congrArg some (normalize_record (plain_obj.mp object).1 keys rfl rfl ?_)
  simp only [List.forall_mem_cons]
  exact ⟨Reads.of_eq (isString_reads contract), Reads.of_eq (isNat_reads one),
    Reads.of_eq (assertId_reads idRead), Reads.of_eq (assertSafeInteger_reads versionRead),
    Reads.of_eq (assertId_reads documentRead), Reads.of_eq (assertId_reads contextRead),
    Reads.of_eq (assertId_reads scopeRead), Reads.of_eq (assertUsageScope_reads usageRead),
    Reads.of_eq (assertId_reads channelRead), Reads.of_eq (assertSafeInteger_reads epochRead),
    Reads.of_eq (assertSafeInteger_reads bindingRead),
    Reads.of_eq (assertId_reads acceptanceRead),
    Reads.arr (assertArray_reads rolesRead) (eachAt_ids_reads rolesChecked),
    Reads.arr (assertArray_reads decisionsRead) (eachAt_ids_reads decisionsChecked),
    Reads.of_eq (isString_reads rule),
    Reads.arr items (validateRepresentatives_reads (plain_items object items) repsChecked),
    List.forall_mem_nil _⟩

theorem validatePublishContext_reads {label : String} {index : Nat} {v : Value}
    {c : PublishContext} (run : validatePublishContext label index v = .ok c) :
    v = jsonString c.text := by
  unfold validatePublishContext at run
  split_ifs at run with all
  · cases run
    exact Option.some.inj (isString_reads all)
  · obtain ⟨id, checked, rfl⟩ := map_ok.mp run
    exact Option.some.inj (assertId_reads checked)

theorem validateIdentities_reads {items : List Value} {index : Nat} {seen : List String}
    {all : List ConfigIdentity} (plain : ∀ v ∈ items, v.plain = true)
    (run : validateIdentities index items seen = .ok all) :
    items.map Value.normalize = (all.map ConfigIdentity.toJson).map Value.normalize := by
  induction items generalizing index seen all with
  | nil =>
      cases run
      rfl
  | cons v rest ih =>
      simp only [validateIdentities, bind_ok, valid_ok, expect_ok, pure_ok] at run
      obtain ⟨fs, record, _, keys, org, orgRead, actor, actorRead, kind, kindRead, rawContexts,
        contextsRead, contexts, contextsChecked, _, _, propose, proposeRead, _, _, others, tail,
        rfl⟩ := run
      obtain rfl := Option.some.inj (assertRecord_ok record)
      have head := plain _ List.mem_cons_self
      rw [List.map_cons, List.map_cons, List.map_cons,
        ih (fun w mem => plain w (List.mem_cons_of_mem _ mem)) tail]
      refine congrArg (· :: _) (normalize_record (plain_obj.mp head).1 keys rfl rfl ?_)
      simp only [List.forall_mem_cons]
      exact ⟨Reads.of_eq (assertId_reads orgRead), Reads.of_eq (assertId_reads actorRead),
        Reads.of_eq (parseEnum_reads kindRead),
        Reads.arr (assertArray_reads contextsRead) (eachAt_reads (fun _ checked =>
          congrArg Value.normalize (validatePublishContext_reads checked)) contextsChecked),
        Reads.of_eq (assertBool_reads proposeRead), List.forall_mem_nil _⟩

theorem validatePolicies_reads {channelId : Id} {membershipEpoch roleBindingVersion : SafeInt 1}
    {identities : List ConfigIdentity} {items : List Value} {index : Nat} {seen : List String}
    {all : List AgreementPolicy} (plain : ∀ v ∈ items, v.plain = true)
    (run : validatePolicies channelId membershipEpoch roleBindingVersion identities index items
      seen = .ok all) :
    items.map Value.normalize = (all.map AgreementPolicy.toJson).map Value.normalize := by
  induction items generalizing index seen all with
  | nil =>
      cases run
      rfl
  | cons v rest ih =>
      simp only [validatePolicies, bind_ok, pure_ok] at run
      obtain ⟨policy, head, _, _, _, _, _, _, _, _, _, _, others, tail, rfl⟩ := run
      have one : ∀ w ∈ some v, w.plain = true := fun w mem => by
        cases mem
        exact plain _ List.mem_cons_self
      rw [List.map_cons, List.map_cons, List.map_cons,
        Option.some.inj (validatePolicy_reads one head),
        ih (fun w mem => plain w (List.mem_cons_of_mem _ mem)) tail]

theorem validateConfig_reads {o : Option Value} {c : DomainConfig}
    (plain : ∀ v ∈ o, v.plain = true) (run : validateConfig o = .ok c) : Reads o c.toJson := by
  simp only [validateConfig, bind_ok, valid_ok, Except.ok.injEq] at run
  obtain ⟨fs, record, _, keys, version, versionRead, channel, channelRead, epoch, epochRead,
    binding, bindingRead, serving, servingRead, rawIdentities, identitiesRead, _, _, identities,
    identitiesChecked, rawPolicies, policiesRead, _, _, policies, policiesChecked, rfl⟩ := run
  obtain rfl := assertRecord_ok record
  have object := plain _ rfl
  have people := assertArray_reads identitiesRead
  have rules := assertArray_reads policiesRead
  refine congrArg some (normalize_record (plain_obj.mp object).1 keys rfl rfl ?_)
  simp only [List.forall_mem_cons]
  exact ⟨Reads.of_eq (assertVersion_reads versionRead), Reads.of_eq (assertId_reads channelRead),
    Reads.of_eq (assertSafeInteger_reads epochRead),
    Reads.of_eq (assertSafeInteger_reads bindingRead),
    Reads.of_eq (assertBool_reads servingRead),
    Reads.arr people (validateIdentities_reads (plain_items object people) identitiesChecked),
    Reads.arr rules (validatePolicies_reads (plain_items object rules) policiesChecked),
    List.forall_mem_nil _⟩

/-! ## Accepted values -/

/-- What the validator returns is the value it read, and it accepts that again. -/
structure Lossless {α : Type} (validate : Option Value → Except DomainError α)
    (toJson : α → Value) : Prop where
  reads : ∀ {v a}, v.plain = true → validate (some v) = .ok a →
    v.normalize = (toJson a).normalize
  canonical : ∀ {v a}, v.plain = true → validate (some v) = .ok a →
    canonicalize (toJson a) = canonicalize v
  again : ∀ {v a}, validate (some v) = .ok a → validate (some (toJson a)) = .ok a
  undefined : ∀ {a}, validate none ≠ .ok a

theorem Lossless.of_reads {α : Type} {validate : Option Value → Except DomainError α}
    {toJson : α → Value}
    (reads : ∀ {o a}, (∀ v ∈ o, v.plain = true) → validate o = .ok a → Reads o (toJson a))
    (again : ∀ {o a}, validate o = .ok a → validate (some (toJson a)) = .ok a) :
    Lossless validate toJson := by
  have same : ∀ {v a}, v.plain = true → validate (some v) = .ok a →
      v.normalize = (toJson a).normalize := by
    intro v a plain run
    refine Option.some.inj (reads (fun w mem => ?_) run)
    cases mem
    exact plain
  refine ⟨same, fun plain run => canonicalize_congr (same plain run).symm, again, fun run => ?_⟩
  cases reads (o := none) (fun _ mem => by cases mem) run

theorem validateRevision_lossless [Sha256] :
    Lossless validateRevision DocumentRevision.toJson :=
  .of_reads validateRevision_reads fun run =>
    validateRevision_json (validateRevision_valid _ _ run)

theorem validatePolicy_lossless : Lossless validatePolicy AgreementPolicy.toJson :=
  .of_reads validatePolicy_reads fun run => validatePolicy_json (validatePolicy_valid _ _ run)

theorem validateConfig_lossless : Lossless validateConfig DomainConfig.toJson :=
  .of_reads validateConfig_reads fun run => validateConfig_json (validateConfig_valid _ _ run)

theorem validateProposal_lossless : Lossless validateProposal AgreementProposalRecord.toJson :=
  .of_reads validateProposal_reads fun _ => validateProposal_json _

theorem validateDecision_lossless : Lossless validateDecision ApprovalDecision.toJson :=
  .of_reads validateDecision_reads fun run =>
    validateDecision_json (validateDecision_valid _ _ run)

theorem validateAgreement_lossless : Lossless validateAgreement AgreementRecord.toJson :=
  .of_reads validateAgreement_reads fun run =>
    validateAgreement_json (validateAgreement_valid _ _ run)

/-! ## Read, modify, write -/

/-- `value[name]` -/
def field (value : Value) (name : String) : Option Value :=
  (isRecord value).bind fun fields => fields.get name

/-- The two values agree in every field outside `sets`. -/
def KeepsOthers (sets : List String) (old new : Value) : Prop :=
  ∀ name ∉ sets, ReadsOption (field old name) (field new name)

theorem field_normalize (v : Value) (name : String) :
    field v.normalize name = (field v name).map Value.normalize := by
  cases v with
  | obj fields =>
      rw [Value.normalize_obj]
      exact Fields.get_normalize fields name
  | null => rw [Value.normalize_null]; rfl
  | bool b => rw [Value.normalize_bool]; rfl
  | num n => rw [Value.normalize_num]; rfl
  | str s => rw [Value.normalize_str]; rfl
  | arr items => rw [Value.normalize_arr]; rfl

theorem KeepsOthers.refl (sets : List String) (v : Value) : KeepsOthers sets v v :=
  fun _ _ => rfl

theorem KeepsOthers.trans {sets : List String} {u v w : Value} (first : KeepsOthers sets u v)
    (second : KeepsOthers sets v w) : KeepsOthers sets u w :=
  fun name other => (first name other).trans (second name other)

/-- The sorted form has the same fields. -/
theorem KeepsOthers.of_normalize {sets : List String} {v w : Value}
    (same : v.normalize = w.normalize) : KeepsOthers sets v w := by
  intro name _
  rw [ReadsOption, ← field_normalize, ← field_normalize, same]

theorem KeepsOthers.normalize {sets : List String} {v w : Value} (keeps : KeepsOthers sets v w) :
    KeepsOthers sets v.normalize w.normalize :=
  (KeepsOthers.of_normalize (Value.normalize_normalize v)).trans
    (keeps.trans (.of_normalize (Value.normalize_normalize w).symm))

/-- A value that is not an object has no fields. -/
theorem KeepsOthers.nat (sets : List String) (m n : Nat) :
    KeepsOthers sets (jsonNat m) (jsonNat n) :=
  fun _ _ => rfl

/-- The fields a change of status sets. -/
def statusFields : List String :=
  ["status", "status_reason", "status_changed_by", "status_changed_at"]

theorem field_record (l : List (String × Option Value)) (name : String) :
    field (record l) name = (recordFields l).get name := rfl

theorem AgreementRecord.withStatus_keeps (a : AgreementRecord) (status : AgreementStatus)
    (reason : Text 1000) (ctx : Context) :
    KeepsOthers statusFields a.toJson (a.withStatus status reason ctx).toJson := by
  intro name other
  simp only [statusFields, List.mem_cons, List.not_mem_nil, or_false, not_or] at other
  obtain ⟨notStatus, notReason, notBy, notAt⟩ := other
  simp only [ReadsOption, AgreementRecord.toJson, AgreementRecord.withStatus, field_record,
    List.cons_append, List.nil_append, Slot.fields, get_recordFields_cons, get_recordFields_nil,
    if_neg (Ne.symm notStatus), if_neg (Ne.symm notReason), if_neg (Ne.symm notBy),
    if_neg (Ne.symm notAt)]

theorem AgreementProposalRecord.counted_keeps (p : AgreementProposalRecord) (n : SafeInt 0) :
    KeepsOthers ["review_counter"] p.toJson
      ({ p with reviewCounter := n } : AgreementProposalRecord).toJson := by
  intro name other
  rw [List.mem_singleton] at other
  simp only [ReadsOption, AgreementProposalRecord.toJson, field_record, List.cons_append,
    List.nil_append, Slot.fields, get_recordFields_cons, get_recordFields_nil,
    if_neg (Ne.symm other)]

theorem AgreementProposalRecord.activated_keeps (p : AgreementProposalRecord) (id : Id) :
    KeepsOthers ["status", "agreement_id"] p.toJson (p.activated id).toJson := by
  intro name other
  simp only [List.mem_cons, List.not_mem_nil, or_false, not_or] at other
  simp only [ReadsOption, AgreementProposalRecord.toJson, AgreementProposalRecord.activated,
    field_record, List.cons_append, List.nil_append, Slot.fields, get_recordFields_cons,
    get_recordFields_nil, if_neg (Ne.symm other.1), if_neg (Ne.symm other.2)]

theorem pointer_keeps (name : String) (v w : Value) :
    KeepsOthers [name] (record [(name, v)]) (record [(name, w)]) := by
  intro other different
  rw [List.mem_singleton] at different
  simp only [ReadsOption, field_record, get_recordFields_cons, get_recordFields_nil,
    if_neg (Ne.symm different)]

/-! ## Commands -/

/-- The fields a command sets in a record of this kind that is stored already. -/
def setFields (type : String) : KeyPrefix → List String
  | .proposal => if type = "activate" then ["status", "agreement_id"] else ["review_counter"]
  | .agreement => statusFields
  | .activeSlot => ["agreement_id"]
  | .latestDecision => ["decision_id"]
  | _ => []

section Commands

variable [Sha256] {L : State} {s : Store} {ctx : Context} {config : DomainConfig}

/-- The entry keeps the other fields of the record it replaces, if there is one. -/
def Keeps (L : State) (type : String) (e : Entry) : Prop :=
  ∀ old, L e.1 = some old → KeepsOthers (setFields type e.1.kind) (e.1.toValue old) (e.1.toValue e.2)

theorem Keeps.fresh {type : String} {e : Entry} (missing : L e.1 = none) : Keeps L type e := by
  intro old found
  rw [missing] at found
  cases found

theorem Keeps.agreement {type : String} {a b : AgreementRecord} {id : Id}
    (stored : L.agreement id = some a) {h : b.Valid ∧ b.agreementId = id}
    (keeps : KeepsOthers statusFields a.toJson b.toJson) : Keeps L type ⟨.agreement id, ⟨b, h⟩⟩ := by
  intro old found
  obtain ⟨_, same⟩ := State.agreement_eq.mp stored
  obtain rfl := Option.some.inj (same.symm.trans found)
  exact keeps.normalize

theorem Keeps.proposal {type : String} {p q : AgreementProposalRecord} {id : Id}
    (stored : L.proposal id = some p) {h : q.proposalId = id}
    (keeps : KeepsOthers (setFields type .proposal) p.toJson q.toJson) :
    Keeps L type ⟨.proposal id, ⟨q, h⟩⟩ := by
  intro old found
  obtain ⟨_, same⟩ := State.proposal_eq.mp stored
  obtain rfl := Option.some.inj (same.symm.trans found)
  exact keeps.normalize

theorem Keeps.activeSlot {type : String} {slot : Slot} {id : Option Id} :
    Keeps L type ⟨.activeSlot slot, id⟩ :=
  fun _ _ => pointer_keeps _ _ _

theorem Keeps.epoch {type : String} {n : SafeInt 0} : Keeps L type ⟨.eligibilityEpoch, n⟩ :=
  fun _ _ => KeepsOthers.nat _ _ _

theorem Keeps.close {type : String} {a : AgreementRecord} {status : AgreementStatus}
    {reason : Text 1000} {epoch : SafeInt 0} (stored : L.agreement a.agreementId = some a)
    (valid : (a.withStatus status reason ctx).Valid) :
    ∀ e ∈ closeEntries (a.withStatus status reason ctx) valid epoch, Keeps L type e := by
  simp only [closeEntries, List.forall_mem_cons]
  exact ⟨Keeps.agreement stored (a.withStatus_keeps status reason ctx), Keeps.activeSlot,
    Keeps.epoch, List.forall_mem_nil _⟩

variable {command : DomainCommand} {r : Value} {es : List Entry} {input : Fields}

theorem Deciding.keeps_fields (c : Deciding L ctx config input) :
    ∀ e ∈ c.entries, Keeps L "decide" e := by
  have stored : L.proposal c.proposal.proposalId = some c.proposal := by
    rw [c.proposalId]
    exact c.proposalStored
  rw [Deciding.entries, List.forall_mem_append]
  constructor
  · simp only [decisionEntries, List.forall_mem_cons]
    exact ⟨Keeps.fresh c.fresh, fun _ _ => pointer_keeps _ _ _,
      Keeps.proposal stored (c.proposal.counted_keeps c.counter),
      fun _ _ => KeepsOthers.nat _ _ _, List.forall_mem_nil _⟩
  · cases c.suspension with
    | none => exact List.forall_mem_nil _
    | some u => exact Keeps.close u.active.2.1 (AgreementRecord.withStatus_valid u.valid)

theorem Activating.keeps_fields (c : Activating L ctx config input) :
    ∀ e ∈ c.entries, Keeps L "activate" e := by
  have superseded : ∀ (current : Option AgreementRecord) (valid : ∀ a, current = some a → a.Valid),
      L.ActiveIs c.proposal.toSlot current →
      ∀ e ∈ supersededEntries ctx current valid, Keeps L "activate" e := by
    intro current valid active
    cases current with
    | none => exact List.forall_mem_nil _
    | some a =>
        simp only [supersededEntries, List.forall_mem_cons]
        exact ⟨Keeps.agreement active.2.1 (a.withStatus_keeps _ _ _), List.forall_mem_nil _⟩
  rw [Activating.entries, List.cons_append, List.forall_mem_cons, List.forall_mem_append]
  refine ⟨Keeps.epoch, superseded c.current c.currentIs.valid c.currentIs, ?_⟩
  simp only [activatedEntries, List.forall_mem_cons]
  exact ⟨Keeps.fresh c.fresh, Keeps.activeSlot,
    Keeps.proposal c.proposalStored (c.proposal.activated_keeps _), List.forall_mem_nil _⟩

theorem Proposing.keeps_fields (core : Core L config) (c : Proposing L ctx config input) :
    ∀ e ∈ c.entries, Keeps L "propose" e := by
  simp only [Proposing.entries, List.forall_mem_cons]
  refine ⟨Keeps.fresh c.fresh, fun _ _ => KeepsOthers.nat _ _ _, fun old found => ?_,
    List.forall_mem_nil _⟩
  have stored : L.policy c.policy.policyId c.policy.policyVersion = some old.1 :=
    congrArg (Option.map fun p : Key.Record (.policy _ _) => p.1) found
  have same : old.1 = c.policy :=
    Option.some.inj ((core.policies _ _ _ stored).symm.trans c.found)
  change KeepsOthers [] old.1.toJson.normalize c.policy.toJson.normalize
  rw [same]
  exact KeepsOthers.refl _ _

theorem Performs.keeps_fields (core : Core L config)
    (performs : Performs L ctx config command r es) : ∀ e ∈ es, Keeps L command.type.1 e := by
  cases performs with
  | republish c type => exact List.forall_mem_nil _
  | publish c type =>
      simp only [Publishing.entries, List.forall_mem_cons]
      exact ⟨Keeps.fresh c.fresh, Keeps.fresh c.freshId, List.forall_mem_nil _⟩
  | propose c type => exact type ▸ c.keeps_fields core
  | decide c type => exact type ▸ c.keeps_fields
  | activate c type => exact type ▸ c.keeps_fields
  | withdraw c type => exact Keeps.close c.stored _
  | suspend c type => exact Keeps.close c.stored _
  | fence c type =>
      simp only [Fencing.entries, List.forall_mem_cons]
      exact ⟨Keeps.fresh c.fresh, List.forall_mem_nil _⟩

/-- A call keeps the fields it does not set of every record it writes again. -/
theorem Execution.keeps_fields {ctx : TxContext} {command : Value} (core : Core L config)
    (c : Execution L ctx command) : ∀ e ∈ c.entries, Keeps L c.request.type.1 e := by
  obtain rfl := c.toAdmitted.config_unique core
  rw [Execution.entries, List.forall_mem_append, List.forall_mem_cons]
  exact ⟨c.performs.keeps_fields core, Keeps.fresh c.fresh, List.forall_mem_nil _⟩

/-- What is buffered for a key is one of the entries. -/
theorem find_putAll {w : Writes String Value} {es : List Entry} {k : Key} {v : Value}
    (found : (putAll w es).find k.text = some v) :
    w.find k.text = some v ∨ ∃ record, ⟨k, record⟩ ∈ es ∧ v = k.toValue record := by
  induction es generalizing w with
  | nil => exact Or.inl found
  | cons e es ih =>
      rw [putAll_cons] at found
      rcases ih found with earlier | ⟨record, mem, same⟩
      · rw [Writes.find_set] at earlier
        split_ifs at earlier with hit
        · obtain ⟨j, record⟩ := e
          obtain rfl := Key.text_inj hit
          exact Or.inr ⟨record, List.mem_cons_self, (Option.some.inj earlier).symm⟩
        · exact Or.inl earlier
      · exact Or.inr ⟨record, List.mem_cons_of_mem _ mem, same⟩

/-- **The validators lose nothing.**  An accepted value comes back canonically equal and is
accepted again; a status change, a counted decision and an activation of what was read keep
every other field of it; and in every reachable store a call that replaces a stored record
keeps the fields it does not set. -/
theorem validators_lossless :
    Lossless validateRevision DocumentRevision.toJson ∧
    Lossless validatePolicy AgreementPolicy.toJson ∧
    Lossless validateConfig DomainConfig.toJson ∧
    Lossless validateProposal AgreementProposalRecord.toJson ∧
    Lossless validateDecision ApprovalDecision.toJson ∧
    Lossless validateAgreement AgreementRecord.toJson ∧
    (∀ v a, v.plain = true → validateAgreement (some v) = .ok a → ∀ status reason ctx,
      KeepsOthers statusFields v (a.withStatus status reason ctx).toJson) ∧
    (∀ v p, v.plain = true → validateProposal (some v) = .ok p →
      (∀ counter, KeepsOthers ["review_counter"] v
        ({ p with reviewCounter := counter } : AgreementProposalRecord).toJson) ∧
      ∀ id, KeepsOthers ["status", "agreement_id"] v (p.activated id).toJson) ∧
    ∀ (s : Store) (c : Call) (request : DomainCommand) (result : Value) (w : Writes String Value),
      Reachable s → validateCommand c.command = .ok request →
      c.program.simulate s [] = .ok (result, w) →
      ∀ (k : Key) (old new : Value), s k.text = some old → w.find k.text = some new →
        KeepsOthers (setFields request.type.1 k.kind) old new := by
  refine ⟨validateRevision_lossless, validatePolicy_lossless, validateConfig_lossless,
    validateProposal_lossless, validateDecision_lossless, validateAgreement_lossless, ?_, ?_, ?_⟩
  · intro v a plain run status reason ctx
    have same := validateAgreement_lossless.reads plain run
    exact (KeepsOthers.of_normalize same).trans (a.withStatus_keeps status reason ctx)
  · intro v p plain run
    have same := validateProposal_lossless.reads plain run
    exact ⟨fun counter => (KeepsOthers.of_normalize same).trans (p.counted_keeps counter),
      fun id => (KeepsOthers.of_normalize same).trans (p.activated_keeps id)⟩
  · intro s c request result w reachable requested run k old new stored written
    obtain ⟨L, config, held⟩ := reachable.holds
    rcases (execute_ok held.represents).mp run with ⟨_, rfl, rfl⟩ | ⟨x, rfl, rfl⟩
    · cases written
    · obtain rfl := Except.ok.inj (x.request_eq.symm.trans requested)
      rcases find_putAll written with earlier | ⟨next, mem, rfl⟩
      · cases earlier
      · rw [held.represents.stored, Option.map_eq_some_iff] at stored
        obtain ⟨before, found, rfl⟩ := stored
        exact x.keeps_fields held.core _ mem before found

end Commands

namespace Demo

@[reducible] local instance policySha256 : Sha256 := sha256

/-- An object with its properties in the opposite order. -/
theorem normalize_reverse {fs : Fields} (nodup : fs.keys.Nodup) :
    (Value.obj fs.reverse).normalize = (Value.obj fs).normalize := by
  rw [Value.normalize_obj, Value.normalize_obj]
  have turned : Fields.keys fs.reverse = fs.keys.reverse := List.map_reverse
  refine congrArg Value.obj (Fields.normalize_ext ?_ nodup fun k v => ?_)
  · rw [turned]
    exact List.nodup_reverse.mpr nodup
  · rw [Fields.mem_normalize, Fields.mem_normalize]
    exact exists_congr fun w => and_congr_left fun _ => List.mem_reverse

def policyFields (document : Id) : Fields := (isRecord (policy document).toJson).getD []

/-- The policy with its properties in the opposite order is accepted, and what is returned
has its canonical text. -/
theorem validators_lossless_policy :
    canonicalize (policy (name "base")).toJson =
      canonicalize (.obj (policyFields (name "base")).reverse) := by
  have nodup : (policyFields (name "base")).keys.Nodup :=
    nodup_keys_recordFields (of_decide_eq_true rfl)
  have same : (Value.obj (policyFields (name "base")).reverse).normalize =
      (policy (name "base")).toJson.normalize := normalize_reverse nodup
  have plain : (Value.obj (policyFields (name "base")).reverse).plain = true := by
    rw [← plain_normalize, same, plain_normalize]
    rfl
  have run : validatePolicy (some (.obj (policyFields (name "base")).reverse)) =
      .ok (policy (name "base")) := by
    rw [← ok_congr (validatePolicy_normalize _), Option.map_some, same, ← Option.map_some,
      ok_congr (validatePolicy_normalize _)]
    exact validatePolicy_json (policy_valid _)
  exact validators_lossless.2.1.canonical plain run

end Demo

end Knowledger
