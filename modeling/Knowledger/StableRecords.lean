import Knowledger.Lib.JsonStable
import Knowledger.Lossless

/-!
# What the domain writes is read back exactly

The records of the domain have fixed names, none of them an array index, and their numbers are
safe integers.  So the text of every write of a command is read back as the very value that was
written (`Performs.stable_entries`, `Execution.stable_entries`).
-/

namespace Knowledger

open Js Txn

/-! ## Object literals -/

/-- Different names that no digit starts. -/
def literalNames (names : List String) : Bool :=
  decide names.Nodup && names.all fun name => name.toList.head?.any fun c => !c.isDigit

theorem arrayIndex_none {name : String}
    (head : name.toList.head?.any (fun c => !c.isDigit) = true) :
    arrayIndex (.wellFormed name) = none := by
  rw [arrayIndex]
  refine if_neg fun index => ?_
  have digits := index.1
  cases first : name.toList.head? with
  | none =>
      rw [first] at head
      cases head
  | some c =>
      rw [first, Option.any_some, Bool.not_eq_true'] at head
      have mem := List.mem_of_mem_head? first
      rw [← digits] at mem
      rw [Nat.isDigit_of_mem_toDigits (by decide) (by decide) mem] at head
      cases head

theorem stable_record {l : List (String × Option Value)}
    (names : literalNames (l.map Prod.fst) = true)
    (inside : ∀ f ∈ l, f.2.all Value.stable = true) : (record l).stable = true := by
  rw [literalNames, Bool.and_eq_true, decide_eq_true_eq, List.all_eq_true] at names
  refine stable_obj.mpr ⟨⟨nodup_keys_recordFields names.1, fun k mem => ?_⟩, fun f mem => ?_⟩
  · obtain ⟨f, listed, _, rfl⟩ := mem_keys_recordFields.mp mem
    exact arrayIndex_none (names.2 f.1 (List.mem_map_of_mem listed))
  · rw [recordFields, List.mem_filterMap] at mem
    obtain ⟨g, listed, is⟩ := mem
    obtain ⟨v, value, rfl⟩ := Option.map_eq_some_iff.mp is
    have stable := inside g listed
    rwa [value] at stable

@[simp] theorem stable_jsonString (s : String) : (jsonString s).stable = true := rfl

@[simp] theorem stable_jsonText {pattern : String → Prop} (s : Subtype pattern) :
    (jsonText s).stable = true := rfl

@[simp] theorem stable_jsonNat {minimum : Nat} (n : SafeInt minimum) :
    (jsonNat n.1).stable = true := by
  have small := n.2.2
  rw [jsonNat, Value.stable, decide_eq_true_iff]
  omega

@[simp] theorem stable_one : (jsonNat 1).stable = true := rfl

@[simp] theorem stable_null : Value.null.stable = true := rfl

@[simp] theorem stable_bool (b : Bool) : (Value.bool b).stable = true := rfl

@[simp] theorem stable_optional {α : Type} {f : α → Value} (each : ∀ a, (f a).stable = true)
    (o : Option α) : (o.map f).all Value.stable = true := by
  cases o with
  | none => rfl
  | some a => exact each a

@[simp] theorem stable_optionalText {pattern : String → Prop} (o : Option (Subtype pattern)) :
    (o.map jsonText).all Value.stable = true :=
  stable_optional stable_jsonText o

@[simp] theorem stable_map {α : Type} {f : α → Value} {l : List α} :
    (Value.arr (l.map f)).stable = true ↔ ∀ a ∈ l, (f a).stable = true := by
  rw [stable_arr, List.forall_mem_map]

/-! ## Records -/

@[simp] theorem Actor.stable_toJson (a : Actor) : a.toJson.stable = true :=
  stable_record (by simp only [List.map]; rfl) (by simp)

@[simp] theorem ConfigVersion.stable_toJson (v : ConfigVersion) : v.toJson.stable = true := by
  cases v with
  | number n => exact stable_jsonNat n
  | name id => rfl

@[simp] theorem RevisionDependency.stable_toJson (d : RevisionDependency) :
    d.toJson.stable = true :=
  stable_record (by simp only [List.map]; rfl) (by simp)

@[simp] theorem SharedAssertion.stable_toJson (a : SharedAssertion) : a.toJson.stable = true :=
  stable_record (by simp only [List.map]; rfl) (by simp)

@[simp] theorem RevisionMetadata.stable_toJson (m : RevisionMetadata) : m.toJson.stable = true :=
  stable_record (by simp only [List.map]; rfl) (by simp)

@[simp] theorem DocumentRevisionPayload.stable_toJson (p : DocumentRevisionPayload) :
    p.toJson.stable = true :=
  stable_record (by simp only [List.map]; rfl) (by simp)

@[simp] theorem DocumentRevision.stable_toJson (r : DocumentRevision) : r.toJson.stable = true :=
  stable_record (by simp only [List.map]; rfl) (by simp)

@[simp] theorem RoleRepresentative.stable_toJson (r : RoleRepresentative) :
    r.toJson.stable = true :=
  stable_record (by simp only [List.map]; rfl) (by simp)

@[simp] theorem AgreementPolicy.stable_toJson (p : AgreementPolicy) : p.toJson.stable = true :=
  stable_record (by simp only [List.map]; rfl) (by simp)

@[simp] theorem ConfigIdentity.stable_toJson (i : ConfigIdentity) : i.toJson.stable = true :=
  stable_record (by simp only [List.map]; rfl) (by simp)

@[simp] theorem DomainConfig.stable_toJson (c : DomainConfig) : c.toJson.stable = true :=
  stable_record (by simp only [List.map]; rfl) (by simp)

@[simp] theorem AgreementProposalRecord.stable_toJson (p : AgreementProposalRecord) :
    p.toJson.stable = true :=
  stable_record (by simp only [Slot.fields, List.map, List.cons_append, List.nil_append]; rfl)
    (by simp [Slot.fields])

@[simp] theorem ApprovalDecision.stable_toJson (d : ApprovalDecision) : d.toJson.stable = true :=
  stable_record (by simp only [List.map]; rfl) (by simp)

@[simp] theorem AgreementRecord.stable_toJson (a : AgreementRecord) : a.toJson.stable = true :=
  stable_record (by simp only [Slot.fields, List.map, List.cons_append, List.nil_append]; rfl)
    (by simp [Slot.fields])

theorem IdempotencyRecord.stable_toJson {r : IdempotencyRecord} (result : r.result.stable = true) :
    r.toJson.stable = true :=
  stable_record (by simp only [List.map]; rfl) (by simp [result])

@[simp] theorem FenceRecord.stable_toJson (f : FenceRecord) : f.toJson.stable = true :=
  stable_record (by simp only [List.map]; rfl) (by simp)

@[simp] theorem stable_pointTo (id : Option Id) : (pointTo id).stable = true :=
  stable_record (by simp only [List.map]; rfl) (by cases id <;> simp [jsonOrNull])

/-! ## Writes -/

section

variable [Sha256] {L : State} {ctx : Context} {config : DomainConfig} {command : DomainCommand}
  {es : List Entry}

/-- Every record but that of a request is stable by its type. -/
theorem stable_toValue {k : Key} (r : k.Record) (other : k.kind ≠ .idempotency) :
    (k.toValue r).stable = true := by
  cases k with
  | idempotency orgId commandId => exact absurd rfl other
  | eligibilityEpoch => exact stable_jsonNat r
  | reviewCounter id => exact stable_jsonNat r
  | activeSlot slot => exact stable_pointTo r
  | revisionId id => exact stable_record (by simp only [List.map]; rfl) (by simp)
  | latestDecision p v r o a => exact stable_record (by simp only [List.map]; rfl) (by simp)
  | fence nonce => exact FenceRecord.stable_toJson r.1
  | config => exact stable_normalize (DomainConfig.stable_toJson r.1)
  | revision digest => exact stable_normalize (DocumentRevision.stable_toJson r.1)
  | policy id version => exact stable_normalize (AgreementPolicy.stable_toJson r.1)
  | proposal id => exact stable_normalize (AgreementProposalRecord.stable_toJson r.1)
  | decision id => exact stable_normalize (ApprovalDecision.stable_toJson r.1)
  | agreement id => exact stable_normalize (AgreementRecord.stable_toJson r.1)

theorem Performs.stable_result {r : Value} (performs : Performs L ctx config command r es) :
    r.stable = true := by
  cases performs with
  | republish c type => exact stable_record (by simp only [List.map]; rfl) (by simp)
  | publish c type => exact stable_record (by simp only [List.map]; rfl) (by simp)
  | propose c type => exact stable_record (by simp only [List.map]; rfl) (by simp)
  | decide c type =>
      refine stable_record (by simp only [List.map]; rfl) ?_
      simp [stable_optional fun _ => stable_jsonString _]
  | activate c type => exact stable_record (by simp only [List.map]; rfl) (by simp)
  | withdraw c type => exact stable_record (by simp only [List.map]; rfl) (by simp)
  | suspend c type => exact stable_record (by simp only [List.map]; rfl) (by simp)
  | fence c type => exact stable_record (by simp only [List.map]; rfl) (by simp)

end

end Knowledger
