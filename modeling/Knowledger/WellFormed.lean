import Knowledger.Validation

/-!
# What the validators accept

For each record: a typed value passes its own validator (`validateProposal_json` and its
siblings), the order of an object's properties does not change what is accepted
(`validateProposal_normalize` and its siblings), and what a validator returns is valid
again, so a stored record is read back as it was written.
-/

namespace Knowledger

open Js

/-! ## Proposals -/

theorem Actor.canonicalizable_json (a : Actor) {depth : Nat} (shallow : depth ≤ 100) :
    canonicalizable a.toJson depth = true := by
  simp [Actor.toJson, canonicalizable_record, maxCanonicalDepth]
  omega

theorem ConfigVersion.canonicalizable_json (v : ConfigVersion) {depth : Nat}
    (shallow : depth ≤ 100) : canonicalizable v.toJson depth = true := by
  cases v <;> simp [ConfigVersion.toJson, maxCanonicalDepth] <;> omega

theorem AgreementProposalRecord.canonicalizable_json (p : AgreementProposalRecord) :
    canonicalizable p.toJson 0 = true := by
  simp [AgreementProposalRecord.toJson, canonicalizable_record, Slot.fields, maxCanonicalDepth,
    Actor.canonicalizable_json, ConfigVersion.canonicalizable_json]

@[simp] theorem assertSlotShape_normalize (fs : Fields) :
    assertSlotShape fs.normalize = assertSlotShape fs := by
  simp only [assertSlotShape, Fields.get_normalize, assertId_normalize, assertUsageScope_normalize]

theorem validateActor_normalize (o : Option Value) (label code message : String)
    (options : DomainErrorOptions) :
    outcome (validateActor (o.map Value.normalize) label code message options) =
      outcome (validateActor o label code message options) := by
  simp only [validateActor, outcome_bind, assertRecord_normalize, map_bind, assertKeys_normalize, Fields.get_normalize, assertId_normalize,
    parseEnum_normalize]

theorem validateActor_json (a : Actor) (label code message : String)
    (options : DomainErrorOptions) :
    validateActor (some a.toJson) label code message options = .ok a := by
  have kind : parseEnum ActorKind.text actorKinds (some (jsonString a.kind.text)) = some a.kind :=
    parseEnum_json (by cases a.kind <;> decide)
  simp [validateActor, Actor.toJson, assertKeys_recordFields, kind]

theorem validateProposal_normalize (o : Option Value) :
    outcome (validateProposal (o.map Value.normalize)) = outcome (validateProposal o) := by
  simp only [validateProposal, outcome_bind, assertRecord_normalize, map_bind, assertKeys_normalize, Fields.get_normalize, assertId_normalize,
    assertDigest_normalize, assertSafeInteger_normalize, assertVersion_normalize,
    assertNonEmptyString_normalize, isString_normalize, parseEnum_normalize,
    validateActor_normalize, assertSlotShape_normalize, canonicalize_obj_normalize,
    optionally_normalize, implies_true]

theorem validateProposal_json (p : AgreementProposalRecord) :
    validateProposal (some p.toJson) = .ok p := by
  have fits := p.canonicalizable_json
  have status : parseEnum ProposalStatus.text proposalStatuses
      (some (jsonString p.status.text)) = some p.status :=
    parseEnum_json (by cases p.status <;> decide)
  have agreementId : optionally (fun v => assertId v "proposal.agreement_id")
      (p.agreementId.map jsonText) = .ok p.agreementId :=
    optionally_json _ fun id => assertId_json _ id
  rw [validateProposal, AgreementProposalRecord.toJson, assertRecord_record]
  simp only [AgreementProposalRecord.toJson] at fits
  simp [assertKeys_recordFields, status, Slot.fields, assertSlotShape, validateActor_json,
    agreementId]
  exact (canonicalize_then fits _).trans (cloneTyped_json p.canonicalizable_json)

/-! ## Decisions -/

/-- Exactly the retractions name a decision. -/
def ApprovalDecision.Valid (d : ApprovalDecision) : Prop :=
  d.retractsDecisionId.isSome = true ↔ d.decision = .retract

theorem ApprovalDecision.canonicalizable_json (d : ApprovalDecision) :
    canonicalizable d.toJson 0 = true := by
  simp [ApprovalDecision.toJson, canonicalizable_record, maxCanonicalDepth]

theorem assertRetracts_normalize (kind : ApprovalKind) (o : Option Value) :
    assertRetracts kind (o.map Value.normalize) = assertRetracts kind o := by
  simp only [assertRetracts, assertId_normalize, Option.isNone_map]

theorem assertRetracts_json {kind : ApprovalKind} {o : Option Id}
    (valid : o.isSome = true ↔ kind = .retract) :
    assertRetracts kind (o.map jsonText) = .ok o := by
  cases o with
  | none =>
      have other : kind ≠ .retract := fun same => by simpa using valid.mpr same
      simp [assertRetracts, other]
  | some id =>
      rw [assertRetracts, if_pos (valid.mp rfl)]
      exact congrArg (some <$> ·) (assertId_json _ id)

theorem assertRetracts_valid {kind : ApprovalKind} {v : Option Value} {o : Option Id}
    (run : assertRetracts kind v = .ok o) : o.isSome = true ↔ kind = .retract := by
  unfold assertRetracts at run
  split_ifs at run with isRetract
  · obtain ⟨id, _, rfl⟩ := map_ok.mp run
    simp [isRetract]
  · obtain ⟨_, _, run⟩ := bind_ok.mp run
    cases run
    simp [isRetract]

theorem validateDecision_normalize (o : Option Value) :
    outcome (validateDecision (o.map Value.normalize)) = outcome (validateDecision o) := by
  simp only [validateDecision, outcome_bind, assertRecord_normalize, map_bind,
    assertKeys_normalize, Fields.get_normalize, assertId_normalize, assertDigest_normalize,
    assertUsageScope_normalize, assertSafeInteger_normalize, assertNonEmptyString_normalize,
    isString_normalize, isNat_normalize, parseEnum_normalize, assertRetracts_normalize,
    assertSlotShape_normalize, canonicalize_obj_normalize]

theorem validateDecision_json {d : ApprovalDecision} (valid : d.Valid) :
    validateDecision (some d.toJson) = .ok d := by
  have fits := d.canonicalizable_json
  have kind : parseEnum ApprovalKind.text approvalKinds
      (some (jsonString d.decision.text)) = some d.decision :=
    parseEnum_json (by cases d.decision <;> decide)
  rw [validateDecision, ApprovalDecision.toJson, assertRecord_record]
  simp only [ApprovalDecision.toJson] at fits
  simp [assertKeys_recordFields, kind, assertSlotShape, assertRetracts_json valid]
  exact (canonicalize_then fits _).trans (cloneTyped_json d.canonicalizable_json)

theorem validateDecision_valid (v : Option Value) :
    Ensures ApprovalDecision.Valid (validateDecision v) := by
  unfold validateDecision
  repeat with_reducible refine Ensures.bind fun _ _ => ?_
  exact Ensures.clone (assertRetracts_valid ‹assertRetracts _ _ = .ok _›)

/-! ## Agreements -/

/-- The approval manifest names one to 32 different decisions. -/
structure AgreementRecord.Valid (a : AgreementRecord) : Prop where
  nonempty : 1 ≤ a.approvalDecisionIds.length
  length_le : a.approvalDecisionIds.length ≤ 32
  nodup : a.approvalDecisionIds.Nodup

theorem AgreementRecord.canonicalizable_json {a : AgreementRecord} (valid : a.Valid) :
    canonicalizable a.toJson 0 = true := by
  have short : a.approvalDecisionIds.length ≤ 65536 := valid.length_le.trans (by omega)
  simp [AgreementRecord.toJson, canonicalizable_record, Slot.fields, maxCanonicalDepth,
    Actor.canonicalizable_json, canonicalizable_arr, maxCanonicalArrayItems, short]

theorem validateAgreement_normalize (o : Option Value) :
    outcome (validateAgreement (o.map Value.normalize)) = outcome (validateAgreement o) := by
  simp only [validateAgreement, outcome_bind, assertRecord_normalize, map_bind,
    assertKeys_normalize, Fields.get_normalize, assertId_normalize, assertDigest_normalize,
    assertSafeInteger_normalize, assertNonEmptyString_normalize, parseEnum_normalize,
    validateActor_normalize, assertSlotShape_normalize, canonicalize_obj_normalize,
    assertArray_normalize, List.length_map, optionally_normalize, eachAt_normalize,
    assertItem_normalize, implies_true]

theorem validateAgreement_json {a : AgreementRecord} (valid : a.Valid) :
    validateAgreement (some a.toJson) = .ok a := by
  have fits := AgreementRecord.canonicalizable_json valid
  have status : parseEnum AgreementStatus.text agreementStatuses
      (some (jsonString a.status.text)) = some a.status :=
    parseEnum_json (by cases a.status <;> decide)
  have ids : eachAt (fun index v =>
      assertId v (at_ "agreement.approval_decision_ids" index)) 0
      (a.approvalDecisionIds.map jsonText) = .ok a.approvalDecisionIds :=
    eachAt_json (fun _ id _ => assertId_json _ id) 0
  have unique : assertUniqueCanonical (a.approvalDecisionIds.map jsonText)
      "agreement.approval_decision_ids" = .ok () :=
    (assertUniqueCanonical_strings _ Subtype.val_injective).mpr valid.nodup
  have reason : optionally (fun v => assertNonEmptyString v "agreement.status_reason" 1000)
      (a.statusReason.map jsonText) = .ok a.statusReason :=
    optionally_json _ fun t => assertNonEmptyString_json _ t
  have changedBy : optionally (fun v => validateActor v "agreement.status_changed_by"
      "CORRUPT_STATE" "agreement status actor kind invalid" corruptState)
      (a.statusChangedBy.map Actor.toJson) = .ok a.statusChangedBy :=
    optionally_json _ fun b => validateActor_json b _ _ _ _
  have changedAt : optionally (fun v => assertNonEmptyString v "agreement.status_changed_at" 80)
      (a.statusChangedAt.map jsonText) = .ok a.statusChangedAt :=
    optionally_json _ fun t => assertNonEmptyString_json _ t
  rw [validateAgreement, AgreementRecord.toJson, assertRecord_record]
  simp only [AgreementRecord.toJson] at fits
  simp [assertKeys_recordFields, status, Slot.fields, assertSlotShape, validateActor_json, ids,
    unique, reason, changedBy, changedAt, valid.nonempty, valid.length_le]
  exact (canonicalize_then fits _).trans (cloneTyped_json (a.canonicalizable_json valid))

theorem eachAt_length {α : Type} {check : Nat → Value → Except DomainError α}
    {items : List Value} {index : Nat} {all : List α} (run : eachAt check index items = .ok all) :
    all.length = items.length := by
  induction items generalizing index all with
  | nil =>
      cases run
      rfl
  | cons v rest ih =>
      simp only [eachAt, bind_ok, pure_ok] at run
      obtain ⟨a, _, others, tail, rfl⟩ := run
      simp [ih tail]

theorem validateAgreement_valid (v : Option Value) :
    Ensures AgreementRecord.Valid (validateAgreement v) := by
  unfold validateAgreement
  repeat with_reducible refine Ensures.bind fun _ _ => ?_
  have bounds := ensure_ok.mp ‹ensure (decide (1 ≤ _) && _) _ _ _ = .ok _›
  have ids := eachAt_length ‹eachAt _ _ _ = .ok _›
  have unique := ‹assertUniqueCanonical _ _ = .ok _›
  simp only [Bool.and_eq_true, decide_eq_true_eq] at bounds
  exact Ensures.clone ⟨ids ▸ bounds.1, ids ▸ bounds.2,
    (assertUniqueCanonical_strings _ Subtype.val_injective).mp unique⟩

end Knowledger
