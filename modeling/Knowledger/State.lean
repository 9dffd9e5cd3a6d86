import Knowledger.Engine
import Knowledger.WellFormedRevision
import Knowledger.WellFormedConfig

/-!
# The typed state

`Key` names every record the domain stores and `Key.Record` is what may be stored there:
a record that carries its own validity and the name it is stored under, so an invalid
state cannot be written down.  A `State` assigns records to keys.

`Represents L s` says that the store `s` holds exactly the records of `L`, each as the
JSON value the domain writes for it.  Writing a record keeps it (`Represents.set`).  An
`Entry` is a record with its key, and a command writes a list of them (`putAll`).
-/

namespace Knowledger

open Js Txn

/-! ## Keys and records -/

inductive Key
  | config
  | eligibilityEpoch
  | revision (digest : Digest)
  | revisionId (id : Id)
  | policy (id : Id) (version : SafeInt 1)
  | proposal (id : Id)
  | decision (id : Id)
  | latestDecision (proposalId : Id) (version : SafeInt 1) (role orgId actorId : Id)
  | reviewCounter (proposalId : Id)
  | agreement (id : Id)
  | activeSlot (slot : Slot)
  | idempotency (orgId commandId : Id)
  | fence (nonce : Nonce)
  deriving DecidableEq

def Key.kind : Key → KeyPrefix
  | .config => .config
  | .eligibilityEpoch => .eligibilityEpoch
  | .revision _ => .revision
  | .revisionId _ => .revisionId
  | .policy _ _ => .policy
  | .proposal _ => .proposal
  | .decision _ => .decision
  | .latestDecision _ _ _ _ _ => .latestDecision
  | .reviewCounter _ => .reviewCounter
  | .agreement _ => .agreement
  | .activeSlot _ => .activeSlot
  | .idempotency _ _ => .idempotency
  | .fence _ => .fence

def Key.parts : Key → List String
  | .config => []
  | .eligibilityEpoch => []
  | .revision digest => [digest.1]
  | .revisionId id => [id.1]
  | .policy id version => [id.1, Nat.repr version.1]
  | .proposal id => [id.1]
  | .decision id => [id.1]
  | .latestDecision proposalId version role orgId actorId =>
      [proposalId.1, Nat.repr version.1, role.1, orgId.1, actorId.1]
  | .reviewCounter proposalId => [proposalId.1]
  | .agreement id => [id.1]
  | .activeSlot slot => [slotKey slot]
  | .idempotency orgId commandId => [orgId.1, commandId.1]
  | .fence nonce => [nonce.1]

/-- The key as the domain spells it. -/
def Key.text (k : Key) : String := stateKey k.kind k.parts

theorem Key.text_inj {j k : Key} (h : j.text = k.text) : j = k := by
  obtain ⟨sameKind, sameParts⟩ := stateKey_inj.mp h
  cases j <;> cases k <;> first
    | rfl
    | (simp only [Key.kind, reduceCtorEq] at sameKind; done)
    | (simp only [Key.parts, List.cons.injEq, and_true, Subtype.val_inj] at sameParts
       first
         | (subst sameParts; rfl)
         | (obtain ⟨rfl, rfl⟩ := sameParts; rfl)
         | (obtain ⟨rfl, version⟩ := sameParts
            obtain rfl := Subtype.ext (Nat.repr_inj.mp version)
            rfl)
         | (obtain ⟨rfl, version, rfl, rfl, rfl⟩ := sameParts
            obtain rfl := Subtype.ext (Nat.repr_inj.mp version)
            rfl)
         | (obtain rfl := slotKey_inj sameParts; rfl))

/-- An idempotency record as `execute` writes it. -/
structure IdempotencyRecord.Valid (r : IdempotencyRecord) : Prop where
  digest : isDigest r.commandDigest = true
  type : r.commandType.1 ∈ commandTypes
  status : ∃ fields status, r.result = .obj fields ∧ Fields.get fields "status" = some (.str status)
  canonical : ∃ text, canonicalize r.toJson = .ok text
  cloned : (∃ text, canonicalize r.result = .ok text) ∧ r.result.normalize = r.result

section Records

variable [Sha256]

/-- What may be stored under a key. -/
@[reducible] def Key.Record : Key → Type
  | .config => {c : DomainConfig // c.Valid ∧ ∃ text, canonicalize c.toJson = .ok text}
  | .eligibilityEpoch => SafeInt 0
  | .revision digest => {r : DocumentRevision // r.Valid ∧ r.revisionDigest = digest}
  | .revisionId _ => Digest
  | .policy id version =>
      {p : AgreementPolicy // p.Valid ∧ (∃ text, canonicalize p.toJson = .ok text) ∧
        p.policyId = id ∧ p.policyVersion = version}
  | .proposal id => {p : AgreementProposalRecord // p.proposalId = id}
  | .decision id => {d : ApprovalDecision // d.Valid ∧ d.decisionId = id}
  | .latestDecision _ _ _ _ _ => Id
  | .reviewCounter _ => SafeInt 0
  | .agreement id => {a : AgreementRecord // a.Valid ∧ a.agreementId = id}
  | .activeSlot _ => Option Id
  | .idempotency orgId commandId =>
      {r : IdempotencyRecord // r.Valid ∧ r.commandId = commandId ∧ r.actor.orgId = orgId}
  | .fence nonce => {f : FenceRecord // f.nonce = nonce}

/-- The value the domain writes for a record. -/
def Key.toValue : (k : Key) → k.Record → Value
  | .config, c => c.1.toJson.normalize
  | .eligibilityEpoch, n => jsonNat n.1
  | .revision _, r => r.1.toJson.normalize
  | .revisionId _, d => record [("revision_digest", jsonString d.1)]
  | .policy _ _, p => p.1.toJson.normalize
  | .proposal _, p => p.1.toJson.normalize
  | .decision _, d => d.1.toJson.normalize
  | .latestDecision _ _ _ _ _, id => record [("decision_id", jsonString id.1)]
  | .reviewCounter _, n => jsonNat n.1
  | .agreement _, a => a.1.toJson.normalize
  | .activeSlot _, id => pointTo id
  | .idempotency _ _, r => r.1.toJson.normalize
  | .fence _, f => f.1.toJson

/-- The records of a ledger. -/
def State := (k : Key) → Option k.Record

def State.set (L : State) (k : Key) (r : k.Record) : State := Function.update L k (some r)

@[simp] theorem State.set_self (L : State) (k : Key) (r : k.Record) : L.set k r k = some r :=
  Function.update_self _ _ _

@[simp] theorem State.set_of_ne (L : State) {j k : Key} (r : k.Record) (h : j ≠ k) :
    L.set k r j = L j :=
  Function.update_of_ne h _ _

/-! ## Representation -/

/-- The store holds the records of `L` and nothing else. -/
structure Represents (L : State) (s : Store) : Prop where
  stored : ∀ k : Key, s k.text = (L k).map k.toValue
  named : ∀ text v, s text = some v → ∃ k : Key, text = k.text

theorem Represents.set {L : State} {s : Store} (h : Represents L s) (k : Key) (r : k.Record) :
    Represents (L.set k r) (Function.update s k.text (some (k.toValue r))) where
  stored j := by
    by_cases same : j = k
    · subst same
      simp
    · have differs : j.text ≠ k.text := fun text => same (Key.text_inj text)
      rw [Function.update_of_ne differs, State.set_of_ne _ _ same, h.stored]
  named text v found := by
    by_cases same : text = k.text
    · exact ⟨k, same⟩
    · rw [Function.update_of_ne same] at found
      exact h.named text v found

theorem represents_empty : Represents (fun _ => none) (fun _ => none) where
  stored _ := rfl
  named _ _ found := nomatch found

/-- A state has one store. -/
theorem Represents.unique {L : State} {s t : Store} (hs : Represents L s) (ht : Represents L t) :
    s = t := by
  have read : ∀ text v, s text = some v ↔ t text = some v := by
    intro text v
    constructor
    · intro found
      obtain ⟨k, rfl⟩ := hs.named text v found
      rw [ht.stored, ← hs.stored, found]
    · intro found
      obtain ⟨k, rfl⟩ := ht.named text v found
      rw [hs.stored, ← ht.stored, found]
  funext text
  exact Option.ext fun v => read text v

/-! ## Entries -/

/-- A record with the key it is written under. -/
abbrev Entry := (k : Key) × k.Record

/-- The state after the entries are written in order. -/
def State.putAll (L : State) (es : List Entry) : State :=
  es.foldl (fun L e => L.set e.1 e.2) L

/-- The entries as buffered writes. -/
def putAll (w : Writes String Value) (es : List Entry) : Writes String Value :=
  es.foldl (fun w e => w.set e.1.text (e.1.toValue e.2)) w

@[simp] theorem State.putAll_nil (L : State) : L.putAll [] = L := rfl

@[simp] theorem State.putAll_cons (L : State) (e : Entry) (es : List Entry) :
    L.putAll (e :: es) = (L.set e.1 e.2).putAll es := rfl

@[simp] theorem putAll_nil (w : Writes String Value) : putAll w [] = w := rfl

@[simp] theorem putAll_cons (w : Writes String Value) (e : Entry) (es : List Entry) :
    putAll w (e :: es) = putAll (w.set e.1.text (e.1.toValue e.2)) es := rfl

theorem State.putAll_append (L : State) (es fs : List Entry) :
    L.putAll (es ++ fs) = (L.putAll es).putAll fs :=
  List.foldl_append

theorem putAll_append (w : Writes String Value) (es fs : List Entry) :
    putAll w (es ++ fs) = putAll (putAll w es) fs :=
  List.foldl_append

/-- A record under no written key stays. -/
theorem State.putAll_of_notMem {L : State} {k : Key} {es : List Entry}
    (other : ∀ e ∈ es, e.1 ≠ k) : L.putAll es k = L k := by
  induction es generalizing L with
  | nil => rfl
  | cons e es ih =>
      rw [State.putAll_cons, ih fun f mem => other f (List.mem_cons_of_mem _ mem),
        State.set_of_ne _ _ (Ne.symm (other e List.mem_cons_self))]

theorem Represents.set_over {L : State} {s : Store} {w : Writes String Value}
    (h : Represents L (w.over s)) (k : Key) (r : k.Record) :
    Represents (L.set k r) ((w.set k.text (k.toValue r)).over s) := by
  rw [Writes.over_set]
  exact h.set k r

theorem Represents.putAll {L : State} {s : Store} {w : Writes String Value}
    (h : Represents L (w.over s)) (es : List Entry) :
    Represents (L.putAll es) ((putAll w es).over s) := by
  induction es generalizing L w with
  | nil => exact h
  | cons e es ih => exact ih (h.set_over e.1 e.2)

end Records

end Knowledger
