import Knowledger.State

/-!
# Reading the typed state

What the read functions of the domain return on a store that represents a typed state.
-/

namespace Knowledger

open Js Txn

/-! ## Computations -/

section Computations

variable {α β : Type} {s : Store} {w w' : Writes String Value}

@[simp] theorem checked_value (a : α) : checked (.ok a) = .ok a := rfl

@[simp] theorem checked_ok {x : Except DomainError α} {a : α} :
    checked x = .ok a ↔ x = .ok a := by
  cases x with
  | error e => exact ⟨nofun, nofun⟩
  | ok b => exact ⟨fun h => congrArg _ (Except.ok.inj h), fun h => congrArg _ (Except.ok.inj h)⟩

theorem eval_bind_ok {q : Read α} {f : α → Read β} {b : β} :
    (q >>= f).eval s = .ok b ↔ ∃ a, q.eval s = .ok a ∧ (f a).eval s = .ok b := by
  rw [Query.eval_bind, bind_ok]

@[simp] theorem eval_check (x : Except DomainError α) :
    (liftM x : Read α).eval s = checked x :=
  Query.eval_ofExcept _

@[simp] theorem eval_getRecord (key : String) :
    (getRecord key).eval s = .ok (present (s key)) := rfl

@[simp] theorem reject_ok {code message : String} {options : DomainErrorOptions} {a : α} :
    (reject code message options : Read α).eval s = .ok a ↔ False :=
  ⟨nofun, False.elim⟩

theorem requireRecord_ok {key code message : String} {options : DomainErrorOptions} {v : Value} :
    (requireRecord key code message options).eval s = .ok v ↔ present (s key) = some v := by
  rw [requireRecord, eval_bind_ok]
  cases found : present (s key) with
  | none => simp [found]
  | some u => simp [found]

theorem simulate_query_ok {q : Read α} {a : α} :
    (liftM q : Tx α).simulate s w = .ok (a, w') ↔ q.eval (w.over s) = .ok a ∧ w' = w := by
  rw [Query.simulate_lift, bind_ok]
  constructor
  · rintro ⟨b, run, same⟩
    cases same
    exact ⟨run, rfl⟩
  · rintro ⟨run, rfl⟩
    exact ⟨a, run, rfl⟩

theorem simulate_check_ok {x : Except DomainError α} {a : α} :
    (liftM x : Tx α).simulate s w = .ok (a, w') ↔ x = .ok a ∧ w' = w := by
  rw [← @checked_ok _ x, ← @eval_check _ (w.over s)]
  exact simulate_query_ok

theorem simulate_pure_ok {a b : α} :
    (pure a : Tx α).simulate s w = .ok (b, w') ↔ a = b ∧ w' = w := by
  rw [Program.simulate_pure, Except.ok.injEq, Prod.mk.injEq]
  exact and_congr_right fun _ => eq_comm

theorem put_ok {key : String} {v : Value} {u : Unit} :
    (put key v).simulate s w = .ok (u, w') ↔ w' = w.set key v := by
  rw [put, Program.simulate_write, Except.ok.injEq, Prod.mk.injEq]
  exact ⟨fun h => h.2.symm, fun h => ⟨rfl, h.symm⟩⟩

theorem cloneCanonical_iff {v u : Value} :
    cloneCanonical v = .ok u ↔ (∃ text, canonicalize v = .ok text) ∧ u = v.normalize := by
  rw [cloneCanonical, bind_ok]
  constructor
  · rintro ⟨text, run, same⟩
    exact ⟨⟨text, run⟩, (Except.ok.inj same).symm⟩
  · rintro ⟨⟨text, run⟩, rfl⟩
    exact ⟨text, run, rfl⟩

theorem putClone_ok {key : String} {v : Value} {u : Unit} :
    (putClone key v).simulate s w = .ok (u, w') ↔
      (∃ text, canonicalize v = .ok text) ∧ w' = w.set key v.normalize := by
  rw [putClone, Program.simulate_bind_ok]
  constructor
  · rintro ⟨c, w'', clone, write⟩
    obtain ⟨run, rfl⟩ := simulate_check_ok.mp clone
    obtain ⟨canonical, rfl⟩ := cloneCanonical_iff.mp run
    exact ⟨canonical, put_ok.mp write⟩
  · rintro ⟨canonical, rfl⟩
    exact ⟨_, _, simulate_check_ok.mpr ⟨cloneCanonical_iff.mpr ⟨canonical, rfl⟩, rfl⟩,
      put_ok.mpr rfl⟩

end Computations

/-! ## Stored records -/

section Stored

variable [Sha256]

theorem validateConfig_stored (c : Key.Record .config) :
    validateConfig (some (Key.toValue .config c)) = .ok c.1 :=
  (ok_congr (validateConfig_normalize (some c.1.toJson))).mpr (validateConfig_json c.2.1)

theorem validateRevision_stored {digest : Digest} (r : Key.Record (.revision digest)) :
    validateRevision (some (Key.toValue (.revision digest) r)) = .ok r.1 :=
  (ok_congr (validateRevision_normalize (some r.1.toJson))).mpr (validateRevision_json r.2.1)

theorem validatePolicy_stored {id : Id} {version : SafeInt 1}
    (p : Key.Record (.policy id version)) :
    validatePolicy (some (Key.toValue (.policy id version) p)) = .ok p.1 :=
  (ok_congr (validatePolicy_normalize (some p.1.toJson))).mpr (validatePolicy_json p.2.1)

theorem validateProposal_stored {id : Id} (p : Key.Record (.proposal id)) :
    validateProposal (some (Key.toValue (.proposal id) p)) = .ok p.1 :=
  (ok_congr (validateProposal_normalize (some p.1.toJson))).mpr (validateProposal_json p.1)

theorem validateDecision_stored {id : Id} (d : Key.Record (.decision id)) :
    validateDecision (some (Key.toValue (.decision id) d)) = .ok d.1 :=
  (ok_congr (validateDecision_normalize (some d.1.toJson))).mpr (validateDecision_json d.2.1)

theorem validateAgreement_stored {id : Id} (a : Key.Record (.agreement id)) :
    validateAgreement (some (Key.toValue (.agreement id) a)) = .ok a.1 :=
  (ok_congr (validateAgreement_normalize (some a.1.toJson))).mpr (validateAgreement_json a.2.1)

theorem Key.toValue_ne_null (k : Key) (r : k.Record) : k.toValue r ≠ .null := by
  cases k <;> simp [Key.toValue, DomainConfig.toJson, DocumentRevision.toJson,
    AgreementPolicy.toJson, AgreementProposalRecord.toJson, ApprovalDecision.toJson,
    AgreementRecord.toJson, IdempotencyRecord.toJson, FenceRecord.toJson, pointTo, record, jsonNat]

theorem Represents.read {L : State} {s : Store} (h : Represents L s) (k : Key) :
    present (s k.text) = (L k).map k.toValue := by
  rw [h.stored]
  cases found : L k with
  | none => rfl
  | some r =>
      have real := Key.toValue_ne_null k r
      rw [Option.map_some]
      unfold present
      split
      · next same => exact absurd (Option.some.inj same) real
      · rfl

/-- A record that must exist is read as it was written. -/
theorem Represents.require {L : State} {s : Store} (h : Represents L s) (k : Key)
    {code message : String} {options : DomainErrorOptions} {v : Value} :
    (requireRecord k.text code message options).eval s = .ok v ↔
      ∃ r, L k = some r ∧ k.toValue r = v := by
  rw [requireRecord_ok, h.read, Option.map_eq_some_iff]

end Stored

section Named

variable [Sha256] {L : State} {s : Store}

/-! ## Records by name -/

def State.config (L : State) : Option DomainConfig := (L .config).map fun c : Key.Record .config => c.1
def State.revision (L : State) (digest : Digest) : Option DocumentRevision :=
  (L (.revision digest)).map fun r : Key.Record (.revision digest) => r.1
def State.proposal (L : State) (id : Id) : Option AgreementProposalRecord :=
  (L (.proposal id)).map fun r : Key.Record (.proposal id) => r.1
def State.decision (L : State) (id : Id) : Option ApprovalDecision :=
  (L (.decision id)).map fun r : Key.Record (.decision id) => r.1
def State.agreement (L : State) (id : Id) : Option AgreementRecord :=
  (L (.agreement id)).map fun r : Key.Record (.agreement id) => r.1

/-- The decision the latest pointer of a representative names. -/
def State.latest (L : State) (proposalId : Id) (version : SafeInt 1) (role orgId actorId : Id) :
    Option Id :=
  L (.latestDecision proposalId version role orgId actorId)

def State.pointer (L : State) (slot : Slot) : Option (Option Id) := L (.activeSlot slot)

/-- The agreement the pointer of a slot names. -/
def State.active (L : State) (slot : Slot) : Option Id := (L.pointer slot).join

def State.counter (L : State) (proposalId : Id) : Option (SafeInt 0) :=
  L (.reviewCounter proposalId)

def State.epochRecord (L : State) : Option (SafeInt 0) := L .eligibilityEpoch
def State.epoch (L : State) : Nat := L.epochRecord.elim 0 Subtype.val

omit [Sha256] in
theorem map_val_eq {α : Type} {P : α → Prop} {o : Option (Subtype P)} {a : α} :
    (o.map fun r => r.1) = some a ↔ ∃ h, o = some ⟨a, h⟩ := by
  rw [Option.map_eq_some_iff]
  exact ⟨fun ⟨r, found, same⟩ => ⟨same ▸ r.2, by rw [found]; exact congrArg _ (Subtype.ext same)⟩,
    fun ⟨_, found⟩ => ⟨_, found, rfl⟩⟩

theorem State.config_eq {c : DomainConfig} :
    L.config = some c ↔ ∃ h, L .config = some ⟨c, h⟩ := map_val_eq

theorem State.revision_eq {digest : Digest} {r : DocumentRevision} :
    L.revision digest = some r ↔ ∃ h, L (.revision digest) = some ⟨r, h⟩ := map_val_eq

theorem State.proposal_eq {id : Id} {p : AgreementProposalRecord} :
    L.proposal id = some p ↔ ∃ h, L (.proposal id) = some ⟨p, h⟩ := map_val_eq

theorem State.decision_eq {id : Id} {d : ApprovalDecision} :
    L.decision id = some d ↔ ∃ h, L (.decision id) = some ⟨d, h⟩ := map_val_eq

theorem State.agreement_eq {id : Id} {a : AgreementRecord} :
    L.agreement id = some a ↔ ∃ h, L (.agreement id) = some ⟨a, h⟩ := map_val_eq

theorem State.active_eq {slot : Slot} {id : Id} :
    L.active slot = some id ↔ L.pointer slot = some (some id) :=
  Option.join_eq_some_iff

/-! ## Reading -/

section Read

variable (h : Represents L s) {code message : String} {options : DomainErrorOptions}

include h

theorem Represents.read_config {c : DomainConfig} :
    readConfig.eval s = .ok c ↔ L.config = some c := by
  simp only [readConfig, eval_bind_ok, show keyFor.config = Key.config.text from rfl, h.require,
    exists_exists_and_eq_and, eval_check, checked_ok, validateConfig_stored, State.config,
    Option.map_eq_some_iff, Except.ok.injEq]

theorem Represents.read_revision {digest : Digest} {R : DocumentRevision → Prop} :
    (∃ v, (requireRecord (keyFor.revision digest.1) code message options).eval s = .ok v ∧
      ∃ r, validateRevision (some v) = .ok r ∧ R r) ↔ ∃ r, L.revision digest = some r ∧ R r := by
  simp only [show keyFor.revision digest.1 = (Key.revision digest).text from rfl, h.require,
    exists_exists_and_eq_and, validateRevision_stored, State.revision, Option.map_eq_some_iff,
    Except.ok.injEq, exists_eq_left']

theorem Represents.read_proposal {id : Id} {R : AgreementProposalRecord → Prop} :
    (∃ v, (requireRecord (keyFor.proposal id.1) code message options).eval s = .ok v ∧
      ∃ r, validateProposal (some v) = .ok r ∧ R r) ↔ ∃ r, L.proposal id = some r ∧ R r := by
  simp only [show keyFor.proposal id.1 = (Key.proposal id).text from rfl, h.require,
    exists_exists_and_eq_and, validateProposal_stored, State.proposal, Option.map_eq_some_iff,
    Except.ok.injEq, exists_eq_left']

theorem Represents.read_decision {id : Id} {R : ApprovalDecision → Prop} :
    (∃ v, (requireRecord (keyFor.decision id.1) code message options).eval s = .ok v ∧
      ∃ r, validateDecision (some v) = .ok r ∧ R r) ↔ ∃ r, L.decision id = some r ∧ R r := by
  simp only [show keyFor.decision id.1 = (Key.decision id).text from rfl, h.require,
    exists_exists_and_eq_and, validateDecision_stored, State.decision, Option.map_eq_some_iff,
    Except.ok.injEq, exists_eq_left']

theorem Represents.read_agreement {id : Id} {R : AgreementRecord → Prop} :
    (∃ v, (requireRecord (keyFor.agreement id.1) code message options).eval s = .ok v ∧
      ∃ r, validateAgreement (some v) = .ok r ∧ R r) ↔ ∃ r, L.agreement id = some r ∧ R r := by
  simp only [show keyFor.agreement id.1 = (Key.agreement id).text from rfl, h.require,
    exists_exists_and_eq_and, validateAgreement_stored, State.agreement, Option.map_eq_some_iff,
    Except.ok.injEq, exists_eq_left']

/-- A record is missing from the store when it is missing from the state. -/
theorem Represents.read_none (k : Key) : present (s k.text) = none ↔ L k = none := by
  rw [h.read, Option.map_eq_none_iff]

theorem readActiveAgreement_ok {slot : Slot} {id : Id} {a : AgreementRecord} :
    (readActiveAgreement slot id.1).eval s = .ok a ↔ L.agreement id = some a ∧ a.toSlot = slot := by
  have key : keyOfString .agreement id.1 = .ok (keyFor.agreement id.1) := rfl
  simp only [readActiveAgreement, key, eval_bind_ok, Query.eval_lift, Except.ok.injEq,
    exists_eq_left', eval_check, checked_ok, ensure_ok, sameSlot_iff, exists_const,
    Query.eval_pure, h.read_agreement]
  constructor
  · rintro ⟨b, found, slot, rfl⟩
    exact ⟨found, slot⟩
  · rintro ⟨found, slot⟩
    exact ⟨a, found, slot, rfl⟩

/-- `o` is the agreement the slot stands for. -/
def State.ActiveIs (L : State) (slot : Slot) : Option AgreementRecord → Prop
  | none => L.active slot = none
  | some a => L.active slot = some a.agreementId ∧ L.agreement a.agreementId = some a ∧
      a.toSlot = slot

theorem Represents.read_pointer (slot : Slot) :
    present (s (keyFor.activeSlot slot)) = (L.pointer slot).map pointTo :=
  h.read (.activeSlot slot)

theorem getActiveAgreement_ok {slot : Slot} {o : Option AgreementRecord} :
    (getActiveAgreement slot).eval s = .ok o ↔ L.ActiveIs slot o := by
  simp only [getActiveAgreement, eval_bind_ok, eval_getRecord, h.read_pointer, Except.ok.injEq,
    exists_eq_left']
  cases found : L.pointer slot with
  | none =>
      have pointer : L.active slot = none := congrArg Option.join found
      cases o <;> simp [State.ActiveIs, pointer]
  | some id =>
      have pointer : L.active slot = id := congrArg Option.join found
      have keys : assertKeys (recordFields [("agreement_id", some (jsonOrNull id))])
          ["agreement_id"] [] "active slot pointer" = .ok () :=
        assertKeys_recordFields _ (by simp) (by simp)
      simp only [Option.map_some, pointTo, record]
      cases id with
      | none =>
          have null : isNull ((recordFields [("agreement_id", some (jsonOrNull none))]).get
            "agreement_id") = true := rfl
          simp only [Query.eval_bind, eval_check, assertRecord, Option.bind_some, isRecord,
            expect_some, checked_value, ok_bind, keys, null, if_true, Query.eval_pure]
          cases o <;> simp [State.ActiveIs, pointer]
      | some id =>
          have field : (recordFields [("agreement_id", some (jsonOrNull (some id)))]).get
            "agreement_id" = some (jsonText id) := rfl
          have read : assertId (some (jsonText id)) "active slot pointer.agreement_id" = .ok id :=
            assertId_json _ id
          have real : isNull (some (jsonText id)) = false := rfl
          simp only [eval_bind_ok, eval_check, assertRecord, Option.bind_some, isRecord,
            expect_some, checked_value, keys, field, real, read, Bool.false_eq_true, if_false,
            Except.ok.injEq, exists_eq_left', exists_const, Query.eval_pure, true_and,
            readActiveAgreement_ok h]
          cases o with
          | none => simp [State.ActiveIs, pointer]
          | some a =>
              simp only [Option.some.injEq, exists_eq_right, State.ActiveIs, pointer]
              constructor
              · rintro ⟨stored, slot⟩
                obtain ⟨⟨_, rfl⟩, _⟩ := State.agreement_eq.mp stored
                exact ⟨rfl, stored, slot⟩
              · rintro ⟨rfl, stored, slot⟩
                exact ⟨stored, slot⟩

theorem Represents.read_epoch :
    present (s keyFor.eligibilityEpoch) = L.epochRecord.map fun n => jsonNat n.1 :=
  h.read .eligibilityEpoch

theorem readReviewCounter_ok {p : AgreementProposalRecord} {n : SafeInt 0} :
    (readReviewCounter p).eval s = .ok n ↔
      n = p.reviewCounter ∧ ∀ m, L.counter p.proposalId = some m → m = p.reviewCounter := by
  have read : present (s (keyFor.reviewCounter p.proposalId.1)) =
      (L.counter p.proposalId).map fun n => jsonNat n.1 :=
    h.read (.reviewCounter p.proposalId)
  simp only [readReviewCounter, eval_bind_ok, eval_getRecord, read, Except.ok.injEq,
    exists_eq_left']
  cases L.counter p.proposalId with
  | none =>
      simp only [Option.map_none, Query.eval_pure, Except.ok.injEq]
      exact ⟨fun same => ⟨same.symm, nofun⟩, fun same => same.1.symm⟩
  | some m =>
      simp only [Option.map_some, eval_bind_ok, eval_check, checked_ok, assertSafeInteger_json,
        Except.ok.injEq, exists_eq_left', ensure_ok, beq_iff_eq, exists_const, Query.eval_pure]
      constructor
      · rintro ⟨same, rfl⟩
        exact ⟨same, fun k some => (Option.some.inj some) ▸ same⟩
      · rintro ⟨rfl, agrees⟩
        exact ⟨agrees m rfl, agrees m rfl⟩

theorem readEpoch_ok {n : SafeInt 0} : readEpoch.eval s = .ok n ↔ n.1 = L.epoch := by
  simp only [readEpoch, eval_bind_ok, eval_getRecord, h.read_epoch, Except.ok.injEq,
    exists_eq_left', State.epoch]
  cases L.epochRecord with
  | none => simp [Subtype.ext_iff, eq_comm]
  | some m =>
      simp only [Option.map_some, eval_check, checked_ok, assertSafeInteger_json,
        Except.ok.injEq, Option.elim_some]
      exact ⟨fun same => congrArg _ same.symm, fun same => Subtype.ext same.symm⟩

end Read

end Named

end Knowledger
