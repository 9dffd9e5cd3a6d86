import Knowledger.Once

/-!
# Written state keys

The storage adapters check every write before it is projected: the key is split, its parts
are decoded and encoded again, and it must be the very key that the domain spells for the
value.  `boundKey` is that key.  `keyTail_text` reads the arguments back from every key the
domain writes, and `validateStateWrite_ok` says that no other key is accepted.
-/

namespace Knowledger.Storage

open Js Txn Uri

/-! ## The check of one write -/

def accepted {ε α : Type} (x : Except ε α) : Option α := x.toOption

/-- `Object.keys` are exactly the names. -/
def ownRecord (value : Option Value) (names : List String) : Option Fields := do
  let fields ← value.bind isRecord
  guard (fields.length = names.length ∧ ∀ name ∈ names, (fields.get name).isSome = true)
  return fields

/-- A string that matches a pattern. -/
def matching (pattern : String → Bool) (value : Option Value) : Option String :=
  (accepted (assertPattern pattern value "")).map Subtype.val

def nonEmpty (value : Option Value) : Bool :=
  match value with
  | some (.str (.wellFormed s)) => s != ""
  | _ => false

/-- A safe integer of at least zero. -/
def integer : Value → Bool
  | .num (.int n) => 0 ≤ n && isSafeInteger n
  | _ => false

/-- `typeof value.status === 'string'` -/
def hasStatus (value : Option Value) : Bool :=
  match (value.bind isRecord).bind fun fields => fields.get "status" with
  | some (.str _) => true
  | _ => false

/-- `/^[1-9][0-9]*$/`, as the safe integer it spells. -/
def positiveInteger (text : String) : Option Nat :=
  match text.toList with
  | [] => none
  | d :: ds =>
      let n := Nat.ofDigitChars 10 (d :: ds) 0
      if inRange 49 57 d && ds.all digitChar && Nat.ble n 9007199254740991 then some n else none

/-- `slotKey` of the fields, which must have the shape of a slot. -/
def slotOf (fields : List String) : Option Slot :=
  match fields with
  | [channelId, documentId, contextId, scopeId, usageScope] =>
      if h : (isId channelId = true ∧ isId documentId = true ∧ isId contextId = true ∧
          isId scopeId = true) ∧ isUsageScope usageScope = true then
        some { channelId := ⟨channelId, h.1.1⟩, documentId := ⟨documentId, h.1.2.1⟩,
               contextId := ⟨contextId, h.1.2.2.1⟩, scopeId := ⟨scopeId, h.1.2.2.2⟩,
               usageScope := ⟨usageScope, h.2⟩ }
      else none
  | _ => none

/-- The decoded arguments of a split key; each must be spelled as it is encoded. -/
def keyTail (parts : List String) : Option (List String) := do
  let tail ← (parts.drop 3).mapM decodeURIComponent
  guard (tail.map encodeURIComponent = parts.drop 3)
  return tail

/-- The key of an idempotency record. -/
def idempotencyKey (value : Value) : Option String := do
  let fields ← ownRecord value ["record_type", "command_id", "command_type",
    "command_digest", "actor", "result", "tx_id"]
  let actor ← ownRecord (fields.get "actor") ["org_id", "actor_id", "kind"]
  guard (isString (fields.get "record_type") "IdempotencyRecord")
  let commandId ← matching isId (fields.get "command_id")
  let orgId ← matching isId (actor.get "org_id")
  let _ ← matching isId (actor.get "actor_id")
  guard (["human", "agent"].any fun kind => isString (actor.get "kind") kind)
  let _ ← matching isDigest (fields.get "command_digest")
  guard (nonEmpty (fields.get "tx_id"))
  guard (commandTypes.any fun type => isString (fields.get "command_type") type)
  guard (hasStatus (fields.get "result"))
  return keyFor.idempotency orgId commandId

/-- The key that `exact` compares with, once the value passed the checks of its kind. -/
def boundKey [Sha256] (kind : String) (tail : List String) (value : Value) : Option String :=
  match kind with
  | "config" => do
      let _ ← accepted (validateConfig value)
      return keyFor.config
  | "revision" => do
      let revision ← accepted (validateRevision value)
      return keyFor.revision revision.revisionDigest.1
  | "revision_id" => do
      let fields ← ownRecord value ["revision_digest"]
      let [revisionId] := tail | none
      guard (isId revisionId)
      let _ ← matching isDigest (fields.get "revision_digest")
      return keyFor.revisionId revisionId
  | "policy" => do
      let policy ← accepted (validatePolicy value)
      return keyFor.policy policy.policyId.1 policy.policyVersion.1
  | "proposal" => do
      let proposal ← accepted (validateProposal value)
      return keyFor.proposal proposal.proposalId.1
  | "decision" => do
      let decision ← accepted (validateDecision value)
      return keyFor.decision decision.decisionId.1
  | "latest_decision" => do
      let fields ← ownRecord value ["decision_id"]
      let _ ← matching isId (fields.get "decision_id")
      let [proposalId, version, role, orgId, actorId] := tail | none
      guard (isId proposalId ∧ isId role ∧ isId orgId ∧ isId actorId)
      let version ← positiveInteger version
      return keyFor.latestDecision proposalId version role orgId actorId
  | "review_counter" => do
      guard (integer value)
      let [proposalId] := tail | none
      guard (isId proposalId)
      return keyFor.reviewCounter proposalId
  | "agreement" => do
      let agreement ← accepted (validateAgreement value)
      return keyFor.agreement agreement.agreementId.1
  | "active_slot" => do
      let fields ← ownRecord value ["agreement_id"]
      guard (isNull (fields.get "agreement_id") ∨
        (matching isId (fields.get "agreement_id")).isSome)
      let [text] := tail | none
      let slot ← slotOf (splitOn '|' text)
      guard (slotKey slot = text)
      return keyFor.activeSlot slot
  | "eligibility_epoch" => do
      guard (integer value)
      return keyFor.eligibilityEpoch
  | "idempotency" => idempotencyKey value
  | "fence" => do
      let fields ← ownRecord value ["nonce", "eligibility_epoch", "tx_id"]
      let nonce ← matching isNonce (fields.get "nonce")
      guard ((fields.get "eligibility_epoch").any integer)
      guard (nonEmpty (fields.get "tx_id"))
      return keyFor.fence nonce
  | _ => none

/-- A key with an unpaired surrogate has no kind, or a part that cannot be encoded. -/
def checkStateWrite [Sha256] (key : Str) (value : Value) : Option Unit := do
  let text ← accepted (canonicalize value)
  guard (text.utf8ByteSize ≤ 2 * 1024 * 1024)
  let .wellFormed key := key | none
  let parts := splitOn ':' key
  guard (parts[0]? = some "kcl" ∧ parts[1]? = some "v1" ∧ '\x00' ∉ key.toList)
  let tail ← keyTail parts
  let kind ← parts[2]?
  let expected ← boundKey kind tail value
  guard (key = expected)

/-- A known key prefix is insufficient: the value must have the schema of its kind, and the
key the names in the value.  Every failure is caught and is this one error. -/
def validateStateWrite [Sha256] (key : Str) (value : Value) : Except Thrown Unit :=
  match checkStateWrite key value with
  | some _ => .ok ()
  | none => .error (.error "Invalid or unsupported ledger write-set; projection halted")

/-! ## Checks that pass -/

theorem accepted_eq {ε α : Type} {x : Except ε α} {a : α} : accepted x = some a ↔ x = .ok a := by
  cases x with
  | error e => exact ⟨nofun, nofun⟩
  | ok b => exact ⟨fun same => congrArg _ (Option.some.inj same), fun same => by cases same; rfl⟩

theorem guard_ok {p : Prop} [Decidable p] {u : Unit} : (guard p : Option Unit) = some u ↔ p := by
  by_cases holds : p
  · simp [guard, holds]
  · simp [guard, holds]

theorem matching_ok {pattern : String → Bool} {value : Option Value} {s : String}
    (run : matching pattern value = some s) : pattern s = true := by
  obtain ⟨t, _, rfl⟩ := Option.map_eq_some_iff.mp run
  exact t.2

theorem matching_json {pattern : String → Bool} (s : {s : String // pattern s = true}) :
    matching pattern (some (jsonString s.1)) = some s.1 := by
  rw [matching, assertPattern_json]
  rfl

theorem ofDigitChars_pos {d : Char} (nonzero : inRange 49 57 d = true) (ds : List Char) :
    1 ≤ Nat.ofDigitChars 10 (d :: ds) 0 := by
  have grows : ∀ (cs : List Char) (n : Nat), n ≤ Nat.ofDigitChars 10 cs n := by
    intro cs
    induction cs with
    | nil => intro n; simp
    | cons c cs ih =>
        intro n
        rw [Nat.ofDigitChars_cons]
        have step := ih (10 * n + (c.toNat - '0'.toNat))
        omega
  have first := grows ds (10 * 0 + (d.toNat - '0'.toNat))
  simp only [inRange, Bool.and_eq_true, Nat.ble_eq] at nonzero
  rw [Nat.ofDigitChars_cons]
  have zero : '0'.toNat = 48 := rfl
  omega

theorem positiveInteger_ok {text : String} {n : Nat} (run : positiveInteger text = some n) :
    1 ≤ n ∧ n ≤ 9007199254740991 := by
  unfold positiveInteger at run
  split at run
  · cases run
  next d ds shape =>
    dsimp only at run
    split_ifs at run with ok
    · simp only [Bool.and_eq_true, Nat.ble_eq] at ok
      obtain rfl := Option.some.inj run
      exact ⟨ofDigitChars_pos ok.1.1 ds, ok.2⟩

/-- A positive number is printed without a leading zero. -/
theorem toDigits_head {n : Nat} (positive : 1 ≤ n) :
    ∃ d ds, Nat.toDigits 10 n = d :: ds ∧ inRange 49 57 d = true := by
  induction n using Nat.strong_induction_on with
  | _ n ih =>
      rw [Nat.toDigits_eq_if (by decide)]
      by_cases small : n < 10
      · rw [if_pos small]
        refine ⟨n.digitChar, [], rfl, ?_⟩
        simp only [inRange, Nat.toNat_digitChar_of_lt_ten small, Bool.and_eq_true, Nat.ble_eq]
        omega
      · rw [if_neg small]
        obtain ⟨d, ds, same, nonzero⟩ := ih (n / 10) (by omega) (by omega)
        exact ⟨d, ds ++ [(n % 10).digitChar], by rw [same, List.cons_append], nonzero⟩

theorem digitChar_of_isDigit {c : Char} (digit : c.isDigit = true) : digitChar c = true := by
  have range : 48 ≤ c.toNat ∧ c.toNat ≤ 57 := by
    simpa [Char.isDigit, UInt32.le_iff_toNat_le] using digit
  simp [digitChar, inRange, range]

/-- The version in a key is read back as the number it was printed from. -/
theorem positiveInteger_repr (n : SafeInt 1) : positiveInteger (Nat.repr n.1) = some n.1 := by
  obtain ⟨d, ds, same, nonzero⟩ := toDigits_head n.2.1
  have digits : ds.all digitChar = true := by
    refine List.all_eq_true.mpr fun c mem => digitChar_of_isDigit ?_
    refine Nat.isDigit_of_mem_toDigits (n := n.1) (b := 10) (by decide) (by decide) ?_
    rw [same]
    exact List.mem_cons_of_mem _ mem
  have value : Nat.ofDigitChars 10 (d :: ds) 0 = n.1 := by
    rw [← same, Nat.ofDigitChars_ten_toDigits]
  have le : Nat.ble n.1 9007199254740991 = true := Nat.ble_eq.mpr n.2.2
  unfold positiveInteger
  rw [Nat.toList_repr, same]
  simp only [value, nonzero, digits, le, Bool.and_self, if_true]

theorem slotOf_slotKey (slot : Slot) : slotOf (splitOn '|' (slotKey slot)) = some slot := by
  rw [slotKey, splitOn_joinWith (slotKey_parts_free slot) (by simp)]
  have shape : (isId slot.channelId.1 = true ∧ isId slot.documentId.1 = true ∧
      isId slot.contextId.1 = true ∧ isId slot.scopeId.1 = true) ∧
        isUsageScope slot.usageScope.1 = true :=
    ⟨⟨slot.channelId.2, slot.documentId.2, slot.contextId.2, slot.scopeId.2⟩, slot.usageScope.2⟩
  rw [slotOf, dif_pos shape]

/-! ## Keys of the domain -/

/-- The call of `keyFor` that spells a key. -/
def callKeyFor : Key → String
  | .config => keyFor.config
  | .eligibilityEpoch => keyFor.eligibilityEpoch
  | .revision digest => keyFor.revision digest.1
  | .revisionId id => keyFor.revisionId id.1
  | .policy id version => keyFor.policy id.1 version.1
  | .proposal id => keyFor.proposal id.1
  | .decision id => keyFor.decision id.1
  | .latestDecision proposalId version role orgId actorId =>
      keyFor.latestDecision proposalId.1 version.1 role.1 orgId.1 actorId.1
  | .reviewCounter proposalId => keyFor.reviewCounter proposalId.1
  | .agreement id => keyFor.agreement id.1
  | .activeSlot slot => keyFor.activeSlot slot
  | .idempotency orgId commandId => keyFor.idempotency orgId.1 commandId.1
  | .fence nonce => keyFor.fence nonce.1

theorem callKeyFor_eq (k : Key) : callKeyFor k = k.text := by
  cases k <;> rfl

theorem mapM_decode (parts : List String) :
    (parts.map encodeURIComponent).mapM decodeURIComponent = some parts := by
  induction parts with
  | nil => rfl
  | cons p ps ih =>
      rw [List.map_cons, List.mapM_cons, decodeURIComponent_encodeURIComponent, ih]
      rfl

/-- Splitting and decoding a key recovers the arguments it was built from. -/
theorem keyTail_stateKey (k : KeyPrefix) (parts : List String) :
    keyTail (splitOn ':' (stateKey k parts)) = some parts := by
  rw [split_stateKey]
  simp only [keyTail, keyParts, List.drop_succ_cons, List.drop_zero, mapM_decode,
    Option.bind_eq_bind, Option.bind_some]
  exact Option.bind_eq_some_iff.mpr ⟨(), guard_ok.mpr trivial, rfl⟩

/-- No key of one kind starts with the prefix of another and a separator. -/
theorem kind_of_prefix {j k : KeyPrefix} {parts : List String}
    (starts : (keyPrefixes k ++ ":").toList <+: (stateKey j parts).toList) : j = k := by
  obtain ⟨rest, same⟩ := starts
  have spelled : ∃ more, (stateKey j parts).toList = "kcl:v1:".toList ++ (j.kind.toList ++ more) ∧
      (more = [] ∨ ∃ tail, more = ':' :: tail) := by
    unfold stateKey
    cases parts with
    | nil =>
        refine ⟨[], ?_, Or.inl rfl⟩
        simp only [List.isEmpty_nil, if_true, keyPrefixes, String.toList_append, List.append_nil]
    | cons p ps =>
        refine ⟨_, ?_, Or.inr ⟨(joinWith ':' ((p :: ps).map encodeURIComponent)).toList, rfl⟩⟩
        simp only [List.isEmpty_cons, Bool.false_eq_true, if_false, keyPrefixes,
          String.toList_append, List.append_assoc]
        rfl
  obtain ⟨more, split, ends⟩ := spelled
  rw [split, keyPrefixes, String.toList_append, String.toList_append, List.append_assoc,
    List.append_assoc, List.append_cancel_left_eq] at same
  have colon : (":" : String).toList ++ rest = ':' :: rest := rfl
  rw [colon] at same
  apply KeyPrefix.kind_inj
  rw [← String.toList_inj]
  rcases ends with rfl | ⟨tail, rfl⟩
  · have inside : ':' ∈ j.kind.toList := by
      rw [← List.append_nil j.kind.toList, ← same]
      simp
    exact absurd inside j.not_mem_kind
  · have heads := congrArg (List.splitOn ':') same
    rw [List.splitOn_append_cons_self_of_not_mem k.not_mem_kind,
      List.splitOn_append_cons_self_of_not_mem j.not_mem_kind] at heads
    exact (List.cons.inj heads).1.symm

theorem mem_joinWith {sep c : Char} {parts : List String}
    (mem : c ∈ (joinWith sep parts).toList) : c = sep ∨ ∃ p ∈ parts, c ∈ p.toList := by
  rw [joinWith, String.toList_ofList] at mem
  induction parts with
  | nil => cases mem
  | cons p rest ih =>
      cases rest with
      | nil => exact Or.inr ⟨p, List.mem_cons_self, by simpa [List.intercalate] using mem⟩
      | cons q rest =>
          simp only [List.map_cons, List.intercalate_cons_cons, List.mem_append,
            List.mem_singleton] at mem ih
          rcases mem with (head | same) | tail
          · exact Or.inr ⟨p, List.mem_cons_self, head⟩
          · exact Or.inl same
          · rcases ih tail with same | ⟨r, inside, more⟩
            · exact Or.inl same
            · exact Or.inr ⟨r, List.mem_cons_of_mem _ inside, more⟩

theorem nul_notMem_stateKey (k : KeyPrefix) (parts : List String) :
    '\x00' ∉ (stateKey k parts).toList := by
  rw [stateKey_eq]
  intro mem
  rcases mem_joinWith mem with same | ⟨p, inside, nul⟩
  · exact absurd same (by decide)
  · simp only [keyParts, List.mem_cons, List.mem_map] at inside
    rcases inside with rfl | rfl | rfl | ⟨part, _, rfl⟩
    · exact absurd nul (by decide)
    · exact absurd nul (by decide)
    · cases k <;> exact absurd nul (by decide)
    · exact not_mem_encodeURIComponent part (by decide) (by decide) nul

/-! ## Stored values -/

theorem accepted_bind {ε α β : Type} {x : Except ε α} {a : α} {f : α → Option β}
    (run : x = .ok a) : (accepted x >>= f) = f a := by
  rw [run]
  rfl

theorem guard_bind {p : Prop} [Decidable p] {α : Type} {next : Unit → Option α} (holds : p) :
    ((guard p : Option Unit) >>= next) = next () := by
  rw [guard_ok.mpr holds]
  rfl

theorem ownRecord_obj {fs : Fields} {names : List String}
    (same : fs.length = names.length ∧ ∀ name ∈ names, (fs.get name).isSome = true) :
    ownRecord (some (.obj fs)) names = some fs :=
  guard_bind same

theorem ownRecord_normalize {fs : Fields} {names : List String}
    (same : fs.length = names.length ∧ ∀ name ∈ names, (fs.get name).isSome = true) :
    ownRecord (some (Value.obj fs).normalize) names = some fs.normalize := by
  rw [Value.normalize_obj]
  refine ownRecord_obj ⟨(Fields.length_normalize fs).trans same.1, fun name mem => ?_⟩
  rw [Fields.get_normalize, Option.isSome_map]
  exact same.2 name mem

theorem integer_json {minimum : Nat} (n : SafeInt minimum) : integer (jsonNat n.1) = true := by
  have le := n.2.2
  have fits : (0 : Int) ≤ n.1 ∧ -maxSafeInteger ≤ n.1 ∧ (n.1 : Int) ≤ maxSafeInteger := by
    unfold maxSafeInteger
    omega
  simpa [integer, jsonNat, isSafeInteger] using fits

theorem nonEmpty_json {maxLength : Nat} (t : Text maxLength) :
    nonEmpty (some (jsonString t.1)) = true := by
  have positive := t.2.1
  simp only [nonEmpty, jsonString, bne_iff_ne]
  intro empty
  rw [empty] at positive
  exact absurd positive (by decide)

theorem hasStatus_valid {r : IdempotencyRecord} (valid : r.Valid) :
    hasStatus (some r.result) = true := by
  obtain ⟨fields, status, same, found⟩ := valid.status
  simp only [hasStatus, same, isRecord, Option.bind_some, found]

section Keys

variable [Sha256]

/-- What the value is bound to is a key of the domain. -/
theorem boundKey_ok {kind : String} {tail : List String} {value : Value} {key : String}
    (run : boundKey kind tail value = some key) : ∃ k : Key, key = k.text := by
  unfold boundKey at run
  split at run
  case h_14 => cases run
  case h_12 =>
    simp only [idempotencyKey, Option.bind_eq_bind, Option.bind_eq_some_iff, Option.pure_def,
      Option.some.injEq, guard_ok] at run
    obtain ⟨_, _, _, _, _, _, commandId, command, orgId, org, _, _, _, _, _, _, _, _, _, _, _, _,
      rfl⟩ := run
    exact ⟨.idempotency ⟨orgId, matching_ok org⟩ ⟨commandId, matching_ok command⟩, rfl⟩
  all_goals
    simp only [Option.bind_eq_bind, Option.bind_eq_some_iff, Option.pure_def, Option.some.injEq,
      guard_ok] at run
  case h_1 =>
    obtain ⟨_, _, rfl⟩ := run
    exact ⟨.config, rfl⟩
  case h_2 =>
    obtain ⟨revision, _, rfl⟩ := run
    exact ⟨.revision revision.revisionDigest, rfl⟩
  case h_3 =>
    obtain ⟨_, _, run⟩ := run
    split at run
    · simp only [Option.bind_eq_some_iff, guard_ok, Option.some.injEq] at run
      obtain ⟨_, valid, _, _, rfl⟩ := run
      exact ⟨.revisionId ⟨_, valid⟩, rfl⟩
    · cases run
  case h_4 =>
    obtain ⟨policy, _, rfl⟩ := run
    exact ⟨.policy policy.policyId policy.policyVersion, rfl⟩
  case h_5 =>
    obtain ⟨proposal, _, rfl⟩ := run
    exact ⟨.proposal proposal.proposalId, rfl⟩
  case h_6 =>
    obtain ⟨decision, _, rfl⟩ := run
    exact ⟨.decision decision.decisionId, rfl⟩
  case h_7 =>
    obtain ⟨_, _, _, _, run⟩ := run
    split at run
    · simp only [Option.bind_eq_some_iff, guard_ok, Option.some.injEq] at run
      obtain ⟨_, ⟨proposal, role, org, actor⟩, version, read, rfl⟩ := run
      exact ⟨.latestDecision ⟨_, proposal⟩ ⟨version, positiveInteger_ok read⟩ ⟨_, role⟩ ⟨_, org⟩
        ⟨_, actor⟩, rfl⟩
    · cases run
  case h_8 =>
    obtain ⟨_, _, run⟩ := run
    split at run
    · simp only [Option.bind_eq_some_iff, guard_ok, Option.some.injEq] at run
      obtain ⟨_, valid, rfl⟩ := run
      exact ⟨.reviewCounter ⟨_, valid⟩, rfl⟩
    · cases run
  case h_9 =>
    obtain ⟨agreement, _, rfl⟩ := run
    exact ⟨.agreement agreement.agreementId, rfl⟩
  case h_10 =>
    obtain ⟨_, _, _, _, run⟩ := run
    split at run
    · simp only [Option.bind_eq_some_iff, guard_ok, Option.some.injEq] at run
      obtain ⟨slot, _, _, _, rfl⟩ := run
      exact ⟨.activeSlot slot, rfl⟩
    · cases run
  case h_11 =>
    obtain ⟨_, _, rfl⟩ := run
    exact ⟨.eligibilityEpoch, rfl⟩
  case h_13 =>
    obtain ⟨_, _, nonce, read, _, _, _, _, rfl⟩ := run
    exact ⟨.fence ⟨nonce, matching_ok read⟩, rfl⟩

theorem idempotencyKey_toValue {orgId commandId : Id}
    (r : Key.Record (.idempotency orgId commandId)) :
    idempotencyKey (Key.toValue (.idempotency orgId commandId) r) =
      some (keyFor.idempotency orgId.1 commandId.1) := by
  obtain ⟨r, valid, rfl, rfl⟩ := r
  let fields := recordFields [("record_type", some (jsonString "IdempotencyRecord")),
    ("command_id", jsonString r.commandId.1), ("command_type", jsonString r.commandType.1),
    ("command_digest", jsonString r.commandDigest), ("actor", r.actor.toJson),
    ("result", r.result), ("tx_id", jsonString r.txId.1)]
  let actor := recordFields [("org_id", some (jsonString r.actor.orgId.1)),
    ("actor_id", jsonString r.actor.actorId.1), ("kind", jsonString r.actor.kind.text)]
  have recordType : fields.normalize.get "record_type" = some (jsonString "IdempotencyRecord") :=
    (Fields.get_normalize fields _).trans (congrArg some (normalize_jsonString _))
  have commandId : fields.normalize.get "command_id" = some (jsonString r.commandId.1) :=
    (Fields.get_normalize fields _).trans (congrArg some (normalize_jsonString _))
  have commandType : fields.normalize.get "command_type" = some (jsonString r.commandType.1) :=
    (Fields.get_normalize fields _).trans (congrArg some (normalize_jsonString _))
  have digest : fields.normalize.get "command_digest" = some (jsonString r.commandDigest) :=
    (Fields.get_normalize fields _).trans (congrArg some (normalize_jsonString _))
  have txId : fields.normalize.get "tx_id" = some (jsonString r.txId.1) :=
    (Fields.get_normalize fields _).trans (congrArg some (normalize_jsonString _))
  have actorField : fields.normalize.get "actor" = some r.actor.toJson.normalize :=
    Fields.get_normalize fields _
  have resultField : fields.normalize.get "result" = some r.result := by
    rw [Fields.get_normalize]
    exact congrArg some valid.cloned.2
  have orgId : actor.normalize.get "org_id" = some (jsonString r.actor.orgId.1) :=
    (Fields.get_normalize actor _).trans (congrArg some (normalize_jsonString _))
  have actorId : actor.normalize.get "actor_id" = some (jsonString r.actor.actorId.1) :=
    (Fields.get_normalize actor _).trans (congrArg some (normalize_jsonString _))
  have actorKind : actor.normalize.get "kind" = some (jsonString r.actor.kind.text) :=
    (Fields.get_normalize actor _).trans (congrArg some (normalize_jsonString _))
  have kind : (["human", "agent"].any fun kind =>
      isString (some (jsonString r.actor.kind.text)) kind) = true := by
    cases r.actor.kind <;> rfl
  have type : (commandTypes.any fun type =>
      isString (some (jsonString r.commandType.1)) type) = true :=
    List.any_eq_true.mpr ⟨_, valid.type, by simp⟩
  have isDigest : matching isDigest (some (jsonString r.commandDigest)) = some r.commandDigest :=
    matching_json ⟨r.commandDigest, valid.digest⟩
  have whole : ownRecord (some (Key.toValue (.idempotency r.actor.orgId r.commandId)
      ⟨r, valid, rfl, rfl⟩)) ["record_type", "command_id", "command_type", "command_digest",
        "actor", "result", "tx_id"] = some fields.normalize :=
    ownRecord_normalize ⟨rfl, by simp⟩
  have inner : ownRecord (some r.actor.toJson.normalize) ["org_id", "actor_id", "kind"] =
      some actor.normalize := ownRecord_normalize ⟨rfl, by simp⟩
  rw [idempotencyKey, whole]
  simp only [Option.bind_eq_bind, Option.bind_some, actorField, inner, recordType, commandId,
    commandType, digest, txId, resultField, orgId, actorId, actorKind, matching_json, isDigest]
  refine (guard_bind rfl).trans ?_
  refine (guard_bind kind).trans ?_
  refine (guard_bind (nonEmpty_json r.txId)).trans ?_
  refine (guard_bind type).trans ?_
  exact guard_bind (hasStatus_valid valid)

/-- The value of a domain record is bound to the key the record is stored under. -/
theorem boundKey_toValue (k : Key) (r : k.Record) :
    boundKey k.kind.kind k.parts (k.toValue r) = some k.text := by
  cases k with
  | config => exact accepted_bind (validateConfig_stored r)
  | eligibilityEpoch => exact guard_bind (integer_json r)
  | revision digest =>
      obtain ⟨r, valid, rfl⟩ := r
      exact accepted_bind (validateRevision_stored ⟨r, valid, rfl⟩)
  | revisionId id =>
      refine (congrArg (· >>= _) (ownRecord_obj ⟨rfl, ?_⟩)).trans ?_
      · simp
      · refine (guard_bind id.2).trans ?_
        rw [show Fields.get (recordFields [("revision_digest", some (jsonString r.1))])
          "revision_digest" = some (jsonString r.1) from rfl, matching_json]
        rfl
  | policy id version =>
      obtain ⟨p, valid, canonical, rfl, rfl⟩ := r
      exact accepted_bind (validatePolicy_stored ⟨p, valid, canonical, rfl, rfl⟩)
  | proposal id =>
      obtain ⟨p, rfl⟩ := r
      exact accepted_bind (validateProposal_stored ⟨p, rfl⟩)
  | decision id =>
      obtain ⟨d, valid, rfl⟩ := r
      exact accepted_bind (validateDecision_stored ⟨d, valid, rfl⟩)
  | latestDecision proposalId version role orgId actorId =>
      refine (congrArg (· >>= _) (ownRecord_obj ⟨rfl, ?_⟩)).trans ?_
      · simp
      · refine (congrArg (· >>= _) (matching_json r)).trans ?_
        refine (guard_bind ⟨proposalId.2, role.2, orgId.2, actorId.2⟩).trans ?_
        exact (congrArg (· >>= _) (positiveInteger_repr version)).trans rfl
  | reviewCounter proposalId => exact (guard_bind (integer_json r)).trans (guard_bind proposalId.2)
  | agreement id =>
      obtain ⟨a, valid, rfl⟩ := r
      exact accepted_bind (validateAgreement_stored ⟨a, valid, rfl⟩)
  | activeSlot slot =>
      refine (congrArg (· >>= _) (ownRecord_obj ⟨rfl, ?_⟩)).trans ?_
      · simp
      · have named : isNull (some (jsonOrNull r)) = true ∨
            (matching isId (some (jsonOrNull r))).isSome = true := by
          cases r with
          | none => exact Or.inl rfl
          | some id => exact Or.inr (congrArg Option.isSome (matching_json id))
        refine (guard_bind named).trans ?_
        refine (congrArg (· >>= _) (slotOf_slotKey slot)).trans ?_
        exact guard_bind rfl
  | idempotency orgId commandId => exact idempotencyKey_toValue r
  | fence nonce =>
      obtain ⟨f, rfl⟩ := r
      refine (congrArg (· >>= _) (ownRecord_obj ⟨rfl, ?_⟩)).trans ?_
      · simp
      · refine (congrArg (· >>= _) (matching_json f.nonce)).trans ?_
        refine (guard_bind (integer_json f.eligibilityEpoch)).trans ?_
        exact guard_bind (nonEmpty_json f.txId)

/-- A write of the domain passes, unless its canonical text is over two megabytes. -/
theorem validateStateWrite_toValue (k : Key) (r : k.Record) {text : String}
    (canonical : canonicalize (k.toValue r) = .ok text)
    (small : text.utf8ByteSize ≤ 2 * 1024 * 1024) :
    validateStateWrite k.text (k.toValue r) = .ok () := by
  have checked : checkStateWrite k.text (k.toValue r) = some () := by
    have parts : splitOn ':' k.text = keyParts k.kind k.parts := split_stateKey k.kind k.parts
    have base : (splitOn ':' k.text)[0]? = some "kcl" ∧ (splitOn ':' k.text)[1]? = some "v1" ∧
        '\x00' ∉ k.text.toList := by
      rw [parts]
      exact ⟨rfl, rfl, nul_notMem_stateKey k.kind k.parts⟩
    have kind : (splitOn ':' k.text)[2]? = some k.kind.kind := by
      rw [parts]
      rfl
    refine (accepted_bind canonical).trans ?_
    refine (guard_bind small).trans ?_
    refine (guard_bind base).trans ?_
    refine (congrArg (· >>= _) (keyTail_stateKey k.kind k.parts)).trans ?_
    refine (congrArg (· >>= _) kind).trans ?_
    refine (congrArg (· >>= _) (boundKey_toValue k r)).trans ?_
    exact guard_ok.mpr rfl
  rw [validateStateWrite, checked]

theorem validateStateWrite_ok {key : Str} {value : Value}
    (run : validateStateWrite key value = .ok ()) : ∃ k : Key, key = k.text := by
  unfold validateStateWrite at run
  split at run
  next checked =>
    cases key with
    | illFormed units unpaired =>
        simp only [checkStateWrite, Option.bind_eq_bind, Option.bind_eq_some_iff] at checked
        obtain ⟨_, _, _, _, checked⟩ := checked
        cases checked
    | wellFormed key =>
        simp only [checkStateWrite, Option.bind_eq_bind, Option.bind_eq_some_iff, guard_ok] at checked
        obtain ⟨_, _, _, _, _, _, _, _, _, _, expected, bound, rfl⟩ := checked
        obtain ⟨k, rfl⟩ := boundKey_ok bound
        exact ⟨k, rfl⟩
  next => cases run

/-- **State keys never collide.**  A key determines its kind and its arguments, a slot key its
slot; no kind's keys start with the prefix of another; and the storage check splits, decodes
and encodes every key the domain writes back into the arguments it was built from, accepts the
write, and accepts no other key. -/
theorem state_keys_exact :
    (∀ j k : Key, callKeyFor j = callKeyFor k → j = k) ∧
    (∀ (j k : KeyPrefix) (ps qs : List String), stateKey j ps = stateKey k qs → j = k ∧ ps = qs) ∧
    (∀ left right : Slot, slotKey left = slotKey right → left = right) ∧
    (∀ (j k : KeyPrefix) (parts : List String),
      (keyPrefixes k ++ ":").toList <+: (stateKey j parts).toList → j = k) ∧
    (∀ k : Key, keyTail (splitOn ':' (callKeyFor k)) = some k.parts ∧
      (splitOn ':' (callKeyFor k))[2]? = some k.kind.kind) ∧
    (∀ slot : Slot, slotOf (splitOn '|' (slotKey slot)) = some slot) ∧
    (∀ version : SafeInt 1, positiveInteger (Nat.repr version.1) = some version.1) ∧
    (∀ (k : Key) (r : k.Record) (text : String), canonicalize (k.toValue r) = .ok text →
      text.utf8ByteSize ≤ 2 * 1024 * 1024 →
      validateStateWrite (callKeyFor k) (k.toValue r) = .ok ()) ∧
    ∀ (key : Str) (value : Value), validateStateWrite key value = .ok () →
      ∃ k : Key, key = callKeyFor k := by
  refine ⟨fun j k same => ?_, fun j k ps qs => stateKey_inj.mp, fun _ _ => slotKey_inj,
    fun _ _ _ => kind_of_prefix, fun k => ?_, slotOf_slotKey, positiveInteger_repr,
    fun k r text canonical small => ?_, fun key value run => ?_⟩
  · rw [callKeyFor_eq, callKeyFor_eq] at same
    exact Key.text_inj same
  · rw [callKeyFor_eq]
    refine ⟨keyTail_stateKey k.kind k.parts, ?_⟩
    rw [Key.text, split_stateKey]
    rfl
  · rw [callKeyFor_eq]
    exact validateStateWrite_toValue k r canonical small
  · obtain ⟨k, rfl⟩ := validateStateWrite_ok run
    exact ⟨k, congrArg Str.wellFormed (callKeyFor_eq k).symm⟩

end Keys

namespace Demo

@[reducible] local instance stateSha256 : Sha256 := Knowledger.Demo.sha256

/-- The first epoch of a channel is written under its own key. -/
theorem state_keys_exact_epoch :
    validateStateWrite keyFor.eligibilityEpoch (jsonNat 1) = .ok () := by
  have canonical : canonicalize (jsonNat 1) = .ok "1" := by
    rw [jsonNat, canonicalize, canonicalizeValue]
    rfl
  exact state_keys_exact.2.2.2.2.2.2.2.1 .eligibilityEpoch (⟨1, by decide⟩ : SafeInt 0) "1"
    canonical (by decide)

end Demo

end Knowledger.Storage
