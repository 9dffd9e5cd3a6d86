import Knowledger.Records

/-!
# Field checks

The checks the validators are made of, each returning the typed value it let through.
A check of one field reads the value only, so it gives the same answer before and after
the properties of an object are sorted (`assertId_normalize` and its siblings), and it
accepts what a typed field is written as (`assertId_json` and its siblings).
-/

namespace Knowledger

open Js

/-! ## Failing -/

def ensure (condition : Bool) (code message : String) (options : DomainErrorOptions) :
    Except DomainError Unit :=
  if condition then .ok () else fail code message options

def expect {α : Type} (value : Option α) (code message : String)
    (options : DomainErrorOptions) : Except DomainError α :=
  match value with
  | some a => .ok a
  | none => fail code message options

def conflict : DomainErrorOptions := { status := 409 }
def forbidden : DomainErrorOptions := { status := 403 }
def notFound : DomainErrorOptions := { status := 404 }
def corruptState : DomainErrorOptions := { status := 500, retryable := true }

/-- `fail("INVALID_INPUT", message)` unless the condition holds. -/
def valid (condition : Bool) (message : String) : Except DomainError Unit :=
  ensure condition "INVALID_INPUT" message {}

/-! ## Values -/

def isRecord : Value → Option Fields
  | .obj fields => some fields
  | _ => none

/-- `value === text` -/
def isString (value : Option Value) (text : String) : Bool :=
  match value with
  | some (.str (.wellFormed s)) => s == text
  | _ => false

/-- `value === n` -/
def isNat (value : Option Value) (n : Nat) : Bool :=
  match value with
  | some (.num (.int m)) => m == n
  | _ => false

def isNull : Option Value → Bool
  | some .null => true
  | _ => false

/-- The member of `all` whose text is the value. -/
def parseEnum {α : Type} (text : α → String) (all : List α) (value : Option Value) : Option α :=
  match value with
  | some (.str (.wellFormed s)) => all.find? fun a => text a == s
  | _ => none

/-! ## Checks of one value -/

def assertRecord (value : Option Value) (label : String) : Except DomainError Fields :=
  expect (value.bind isRecord) "INVALID_INPUT" (label ++ " must be a plain object") {}

def allowedKey (names : List String) : Str → Bool
  | .wellFormed s => names.contains s
  | .illFormed _ _ => false

def assertKnown (allowed : List String) (label : String) : List Str → Except DomainError Unit
  | [] => .ok ()
  | key :: rest => do
      valid (allowedKey allowed key) (label ++ " has unknown property " ++ display key)
      assertKnown allowed label rest

def assertPresent (value : Fields) (label : String) : List String → Except DomainError Unit
  | [] => .ok ()
  | key :: rest => do
      valid (value.get key).isSome (label ++ "." ++ key ++ " is required")
      assertPresent value label rest

def assertKeys (value : Fields) (required optional : List String) (label : String) :
    Except DomainError Unit := do
  assertKnown (required ++ optional) label value.keys
  assertPresent value label required

/-- A string that matches a pattern. -/
def assertPattern (pattern : String → Bool) (value : Option Value) (message : String) :
    Except DomainError {s : String // pattern s = true} :=
  match value with
  | some (.str (.wellFormed s)) =>
      if h : pattern s = true then .ok ⟨s, h⟩ else fail "INVALID_INPUT" message {}
  | _ => fail "INVALID_INPUT" message {}

def assertId (value : Option Value) (label : String) : Except DomainError Id :=
  assertPattern isId value (label ++ " is not a valid Knowledger id")

def assertDigest (value : Option Value) (label : String) : Except DomainError Digest :=
  assertPattern isDigest value (label ++ " is not a sha256 digest")

def assertUsageScope (value : Option Value) (label : String) : Except DomainError UsageScope :=
  assertPattern isUsageScope value (label ++ " is not a versioned usage scope")

def assertNonEmptyString (value : Option Value) (label : String) (maxLength : Nat) :
    Except DomainError (Text maxLength) :=
  let message := label ++ " must be a non-empty string of at most " ++ Nat.repr maxLength ++
    " characters"
  match value with
  | some (.str s) => do
      let s ← assertValidUnicode s label
      if h : 1 ≤ s.length ∧ s.length ≤ maxLength then .ok ⟨s, h⟩
      else fail "INVALID_INPUT" message {}
  | _ => fail "INVALID_INPUT" message {}

def assertSafeInteger (value : Option Value) (label : String) (minimum : Nat) :
    Except DomainError (SafeInt minimum) :=
  let message := label ++ " must be a safe integer >= " ++ Nat.repr minimum
  match value with
  | some (.num (.int n)) =>
      if h : minimum ≤ n.toNat ∧ n.toNat ≤ 9007199254740991 ∧ 0 ≤ n then
        .ok ⟨n.toNat, h.1, h.2.1⟩
      else fail "INVALID_INPUT" message {}
  | _ => fail "INVALID_INPUT" message {}

def assertVersion (value : Option Value) (label : String) : Except DomainError ConfigVersion :=
  match value with
  | some (.num n) => ConfigVersion.number <$> assertSafeInteger (some (.num n)) label 1
  | value => ConfigVersion.name <$> assertId value label

def assertArray (value : Option Value) (label : String) : Except DomainError (List Value) :=
  match value with
  | some (.arr items) => .ok items
  | _ => fail "INVALID_INPUT" (label ++ " must be an array") {}

def assertBool (value : Option Value) (label : String) : Except DomainError Bool :=
  match value with
  | some (.bool b) => .ok b
  | _ => fail "INVALID_INPUT" (label ++ " must be boolean") {}

/-- `assertX` of a property that may be `undefined`. -/
def optionally {α : Type} (check : Option Value → Except DomainError α) :
    Option Value → Except DomainError (Option α)
  | none => .ok none
  | some v => some <$> check (some v)

/-- Check the items of an array with their indices. -/
def eachAt {α : Type} (check : Nat → Value → Except DomainError α) :
    Nat → List Value → Except DomainError (List α)
  | _, [] => .ok []
  | index, v :: rest => do
      let a ← check index v
      let rest ← eachAt check (index + 1) rest
      return a :: rest

def at_ (label : String) (index : Nat) : String := label ++ "[" ++ Nat.repr index ++ "]"

def assertUniqueFrom (label : String) : List Value → List String → Except DomainError Unit
  | [], _ => .ok ()
  | v :: rest, seen => do
      let key ← canonicalize v
      valid (!seen.contains key) (label ++ " contains duplicates")
      assertUniqueFrom label rest (key :: seen)

def assertUniqueCanonical (values : List Value) (label : String) : Except DomainError Unit :=
  assertUniqueFrom label values []

/-- `return cloneCanonical(value)`: the clone holds the same typed fields. -/
def cloneTyped {α : Type} (toJson : α → Value) (a : α) : Except DomainError α := do
  let _ ← cloneCanonical (toJson a)
  return a

/-! ## No agreement inside a revision -/

mutual
def assertNoAgreementId (value : Value) (path : String) : Except DomainError Unit :=
  match value with
  | .arr items => noAgreementIdItems items path 0
  | .obj fields => do
      valid (!(Fields.get fields "agreement_id").isSome)
        (path ++ ".agreement_id is forbidden in immutable revisions")
      noAgreementIdFields fields path
  | _ => .ok ()

def noAgreementIdItems (items : List Value) (path : String) (index : Nat) :
    Except DomainError Unit :=
  match items with
  | [] => .ok ()
  | v :: rest => do
      assertNoAgreementId v (at_ path index)
      noAgreementIdItems rest path (index + 1)

def noAgreementIdFields (fields : Fields) (path : String) : Except DomainError Unit :=
  match fields with
  | [] => .ok ()
  | (key, v) :: rest => do
      assertNoAgreementId v (path ++ "." ++ display key)
      noAgreementIdFields rest path
end

/-! ## Outcomes of checks -/

section Outcomes

variable {ε α β : Type} {code message : String} {options : DomainErrorOptions}

theorem bind_ok {x : Except ε α} {f : α → Except ε β} {b : β} :
    (x >>= f) = .ok b ↔ ∃ a, x = .ok a ∧ f a = .ok b := by
  cases x with
  | error e => exact ⟨nofun, fun ⟨_, h, _⟩ => nomatch h⟩
  | ok a => exact ⟨fun h => ⟨a, rfl, h⟩, fun ⟨_, same, h⟩ => by cases same; exact h⟩

/-- What `x` lets through satisfies `P`. -/
def Ensures (P : α → Prop) (x : Except ε α) : Prop := ∀ a, x = .ok a → P a

theorem Ensures.bind {P : β → Prop} {x : Except ε α} {f : α → Except ε β}
    (each : ∀ a, x = .ok a → Ensures P (f a)) : Ensures P (x >>= f) := by
  intro b run
  obtain ⟨a, head, tail⟩ := bind_ok.mp run
  exact each a head b tail

theorem Ensures.ok {P : α → Prop} {a : α} (holds : P a) : Ensures P (.ok a : Except ε α) := by
  intro b same
  cases same
  exact holds

theorem map_ok {x : Except ε α} {f : α → β} {b : β} :
    f <$> x = .ok b ↔ ∃ a, x = .ok a ∧ f a = b := by
  cases x with
  | error e => exact ⟨nofun, fun ⟨_, h, _⟩ => nomatch h⟩
  | ok a =>
      exact ⟨fun h => ⟨a, rfl, Except.ok.inj h⟩, fun ⟨_, same, h⟩ => by cases same; subst h; rfl⟩

@[simp] theorem ok_bind (a : α) (f : α → Except ε β) : (Except.ok a >>= f) = f a := rfl

@[simp] theorem pure_ok {a b : α} : (pure a : Except ε α) = .ok b ↔ a = b :=
  ⟨Except.ok.inj, congrArg _⟩

@[simp] theorem ensure_true : ensure true code message options = .ok () := rfl

theorem ensure_ok {c : Bool} {u : Unit} : ensure c code message options = .ok u ↔ c = true := by
  cases c with
  | true => exact ⟨fun _ => rfl, fun _ => rfl⟩
  | false => exact ⟨nofun, nofun⟩

@[simp] theorem valid_true : valid true message = .ok () := rfl

theorem valid_ok {c : Bool} {u : Unit} : valid c message = .ok u ↔ c = true := ensure_ok

@[simp] theorem expect_some (a : α) : expect (some a) code message options = .ok a := rfl

theorem expect_ok {o : Option α} {a : α} :
    expect o code message options = .ok a ↔ o = some a := by
  cases o with
  | none => exact ⟨nofun, nofun⟩
  | some b => exact ⟨fun h => congrArg some (Except.ok.inj h), fun h => by cases h; rfl⟩

/-- What a check accepts, whatever error it fails with. -/
def outcome (x : Except ε α) : Except Unit α := x.mapError fun _ => ()

@[simp] theorem outcome_value (a : α) : outcome (.ok a : Except ε α) = .ok a := rfl

@[simp] theorem outcome_error (e : ε) : outcome (.error e : Except ε α) = .error () := rfl

@[simp] theorem map_value (f : α → β) (a : α) : f <$> (.ok a : Except ε α) = .ok (f a) := rfl

@[simp] theorem map_error (f : α → β) (e : ε) :
    f <$> (.error e : Except ε α) = .error e := rfl

theorem outcome_bind (x : Except ε α) (f : α → Except ε β) :
    outcome (x >>= f) = (outcome x >>= fun a => outcome (f a)) := by
  cases x <;> rfl

theorem outcome_map (f : α → β) (x : Except ε α) : outcome (f <$> x) = f <$> outcome x := by
  cases x <;> rfl

theorem map_bind (f : α → β) (x : Except ε α) {γ : Type} (g : β → Except ε γ) :
    (f <$> x >>= g) = (x >>= fun a => g (f a)) := by
  cases x <;> rfl

theorem outcome_ok {x : Except ε α} {a : α} : outcome x = .ok a ↔ x = .ok a := by
  cases x with
  | error e => exact ⟨nofun, nofun⟩
  | ok b => exact ⟨fun h => congrArg _ (Except.ok.inj h), fun h => by cases h; rfl⟩

theorem outcome_ext {x y : Except ε α} (same : ∀ a, x = .ok a ↔ y = .ok a) :
    outcome x = outcome y := by
  cases x with
  | ok a => rw [(same a).mp rfl]
  | error e =>
      cases y with
      | ok b => cases (same b).mpr rfl
      | error e' => rfl

/-- Two checks that accept the same values accept them together. -/
theorem ok_congr {x y : Except ε α} (same : outcome x = outcome y) {a : α} :
    x = .ok a ↔ y = .ok a := by
  rw [← outcome_ok, same, outcome_ok]

end Outcomes

/-! ## Checks and the order of properties -/

section Normalize

variable (o : Option Value) (label : String)

theorem assertRecord_normalize : outcome (assertRecord (o.map Value.normalize) label) =
    Fields.normalize <$> outcome (assertRecord o label) := by
  cases o with
  | none => rfl
  | some v => cases v <;> simp [assertRecord, isRecord, expect, fail]

theorem isString_normalize (text : String) :
    isString (o.map Value.normalize) text = isString o text := by
  cases o with
  | none => rfl
  | some v => cases v <;> simp [isString]

theorem isNat_normalize (n : Nat) : isNat (o.map Value.normalize) n = isNat o n := by
  cases o with
  | none => rfl
  | some v => cases v <;> simp [isNat]

theorem parseEnum_normalize {α : Type} (text : α → String) (all : List α) :
    parseEnum text all (o.map Value.normalize) = parseEnum text all o := by
  cases o with
  | none => rfl
  | some v => cases v <;> simp [parseEnum]

theorem assertPattern_normalize (pattern : String → Bool) (message : String) :
    assertPattern pattern (o.map Value.normalize) message = assertPattern pattern o message := by
  cases o with
  | none => rfl
  | some v => cases v <;> simp [assertPattern]

theorem assertId_normalize : assertId (o.map Value.normalize) label = assertId o label :=
  assertPattern_normalize o isId _

/-- `assertId_normalize` for an item of an array. -/
theorem assertItem_normalize (v : Value) : assertId v.normalize label = assertId v label :=
  assertId_normalize (some v) label

theorem assertDigest_normalize :
    assertDigest (o.map Value.normalize) label = assertDigest o label :=
  assertPattern_normalize o isDigest _

theorem assertUsageScope_normalize :
    assertUsageScope (o.map Value.normalize) label = assertUsageScope o label :=
  assertPattern_normalize o isUsageScope _

theorem assertNonEmptyString_normalize (maxLength : Nat) :
    assertNonEmptyString (o.map Value.normalize) label maxLength =
      assertNonEmptyString o label maxLength := by
  cases o with
  | none => rfl
  | some v => cases v <;> simp [assertNonEmptyString]

theorem assertSafeInteger_normalize (minimum : Nat) :
    assertSafeInteger (o.map Value.normalize) label minimum =
      assertSafeInteger o label minimum := by
  cases o with
  | none => rfl
  | some v => cases v <;> simp [assertSafeInteger]

theorem assertVersion_normalize :
    assertVersion (o.map Value.normalize) label = assertVersion o label := by
  cases o with
  | none => rfl
  | some v => cases v <;> simp [assertVersion, assertId, assertPattern]

theorem assertBool_normalize : assertBool (o.map Value.normalize) label = assertBool o label := by
  cases o with
  | none => rfl
  | some v => cases v <;> simp [assertBool]

theorem assertArray_normalize : outcome (assertArray (o.map Value.normalize) label) =
    List.map Value.normalize <$> outcome (assertArray o label) := by
  cases o with
  | none => rfl
  | some v => cases v <;> simp [assertArray, fail]

theorem optionally_normalize {α : Type} {check : Option Value → Except DomainError α}
    (same : ∀ o, outcome (check (o.map Value.normalize)) = outcome (check o)) :
    outcome (optionally check (o.map Value.normalize)) = outcome (optionally check o) := by
  cases o with
  | none => rfl
  | some v =>
      have one : outcome (check (some v.normalize)) = outcome (check (some v)) := same (some v)
      simp only [Option.map_some, optionally, outcome_map, one]

theorem eachAt_normalize {α : Type} {check : Nat → Value → Except DomainError α}
    (same : ∀ i v, outcome (check i v.normalize) = outcome (check i v)) (items : List Value)
    (index : Nat) :
    outcome (eachAt check index (items.map Value.normalize)) =
      outcome (eachAt check index items) := by
  induction items generalizing index with
  | nil => rfl
  | cons v rest ih => simp only [List.map_cons, eachAt, outcome_bind, same, ih]

theorem assertKnown_ok {allowed : List String} {keys : List Str} {u : Unit} :
    assertKnown allowed label keys = .ok u ↔ ∀ k ∈ keys, allowedKey allowed k = true := by
  induction keys with
  | nil => exact ⟨fun _ _ mem => (nomatch mem), fun _ => rfl⟩
  | cons k rest ih =>
      simp only [assertKnown, bind_ok, valid_ok, ih, exists_const, List.mem_cons,
        forall_eq_or_imp]

theorem assertPresent_ok {fs : Fields} {required : List String} {u : Unit} :
    assertPresent fs label required = .ok u ↔ ∀ k ∈ required, (fs.get k).isSome = true := by
  induction required with
  | nil => exact ⟨fun _ _ mem => (nomatch mem), fun _ => rfl⟩
  | cons k rest ih =>
      simp only [assertPresent, bind_ok, valid_ok, ih, exists_const, List.mem_cons,
        forall_eq_or_imp]

theorem assertKeys_ok {fs : Fields} {required optional : List String} {u : Unit} :
    assertKeys fs required optional label = .ok u ↔
      (∀ k ∈ fs.keys, allowedKey (required ++ optional) k = true) ∧
        ∀ k ∈ required, (fs.get k).isSome = true := by
  simp only [assertKeys, bind_ok, assertKnown_ok, assertPresent_ok, exists_const]

theorem assertKeys_normalize (fs : Fields) (required optional : List String) :
    outcome (assertKeys fs.normalize required optional label) =
      outcome (assertKeys fs required optional label) := by
  refine outcome_ext fun u => ?_
  simp only [assertKeys_ok, Fields.mem_keys_normalize, Fields.get_normalize,
    Option.isSome_map]

theorem canonicalize_obj_normalize (fs : Fields) :
    canonicalize (.obj fs.normalize) = canonicalize (.obj fs) := by
  rw [← Value.normalize_obj, canonicalize_normalize]

theorem assertUniqueFrom_normalize (values : List Value) (seen : List String) :
    assertUniqueFrom label (values.map Value.normalize) seen =
      assertUniqueFrom label values seen := by
  induction values generalizing seen with
  | nil => rfl
  | cons v rest ih => simp only [List.map_cons, assertUniqueFrom, canonicalize_normalize, ih]

theorem assertUniqueCanonical_normalize (values : List Value) :
    assertUniqueCanonical (values.map Value.normalize) label =
      assertUniqueCanonical values label :=
  assertUniqueFrom_normalize label values []

end Normalize

/-! ## Checks of what typed values are written as -/

section Json

variable (label : String)

@[simp] theorem get_recordFields_nil (name : String) :
    (recordFields []).get name = none := rfl

@[simp] theorem get_recordFields_cons (n : String) (o : Option Value)
    (rest : List (String × Option Value)) (name : String) :
    (recordFields ((n, o) :: rest)).get name =
      (if n = name then o else none).or ((recordFields rest).get name) := by
  cases o with
  | none => by_cases same : n = name <;> simp [recordFields, same]
  | some v =>
      have split : recordFields ((n, some v) :: rest) =
          (.wellFormed n, v) :: recordFields rest := by simp [recordFields]
      rw [split, Fields.get_cons]
      by_cases same : n = name <;> simp [same]

theorem mem_keys_recordFields {l : List (String × Option Value)} {k : Str} :
    k ∈ (recordFields l).keys ↔ ∃ f ∈ l, f.2.isSome = true ∧ Str.wellFormed f.1 = k := by
  simp only [Fields.keys, recordFields, List.mem_map, List.mem_filterMap, Option.map_eq_some_iff]
  constructor
  · rintro ⟨_, ⟨f, mem, v, some, rfl⟩, rfl⟩
    exact ⟨f, mem, by simp [some], rfl⟩
  · rintro ⟨f, mem, present, rfl⟩
    obtain ⟨v, some⟩ := Option.isSome_iff_exists.mp present
    exact ⟨_, ⟨f, mem, v, some, rfl⟩, rfl⟩

/-- An object literal has the keys it is written with. -/
theorem assertKeys_recordFields {l : List (String × Option Value)}
    {required optional : List String} (known : ∀ f ∈ l, f.1 ∈ required ++ optional)
    (present : ∀ k ∈ required, ((recordFields l).get k).isSome = true) :
    assertKeys (recordFields l) required optional label = .ok () := by
  refine (assertKeys_ok label).mpr ⟨fun k mem => ?_, present⟩
  obtain ⟨f, inside, _, rfl⟩ := mem_keys_recordFields.mp mem
  exact List.contains_iff_mem.mpr (known f inside)

@[simp] theorem assertRecord_record (l : List (String × Option Value)) :
    assertRecord (some (record l)) label = .ok (recordFields l) := rfl

@[simp] theorem isString_json (s text : String) :
    isString (some (jsonString s)) text = (s == text) := rfl

@[simp] theorem isNat_json (m n : Nat) : isNat (some (jsonNat m)) n = (m == n) := by
  simp only [isNat, jsonNat]
  by_cases same : m = n <;> simp [same]

theorem assertPattern_json {pattern : String → Bool} (s : {s : String // pattern s = true})
    (message : String) : assertPattern pattern (some (jsonString s.1)) message = .ok s := by
  simp [assertPattern, jsonString, s.2]

@[simp] theorem assertId_json (id : Id) : assertId (some (jsonString id.1)) label = .ok id :=
  assertPattern_json id _

@[simp] theorem assertDigest_json (d : Digest) :
    assertDigest (some (jsonString d.1)) label = .ok d :=
  assertPattern_json d _

@[simp] theorem assertUsageScope_json (u : UsageScope) :
    assertUsageScope (some (jsonString u.1)) label = .ok u :=
  assertPattern_json u _

@[simp] theorem assertNonEmptyString_json {maxLength : Nat} (t : Text maxLength) :
    assertNonEmptyString (some (jsonString t.1)) label maxLength = .ok t := by
  simp [assertNonEmptyString, jsonString, assertValidUnicode, t.2.1, t.2.2]

@[simp] theorem assertSafeInteger_json {minimum : Nat} (n : SafeInt minimum) :
    assertSafeInteger (some (jsonNat n.1)) label minimum = .ok n := by
  simp [assertSafeInteger, jsonNat, n.2.1, n.2.2]

@[simp] theorem assertVersion_json (v : ConfigVersion) :
    assertVersion (some v.toJson) label = .ok v := by
  cases v with
  | number n => exact congrArg (ConfigVersion.number <$> ·) (assertSafeInteger_json label n)
  | name id => exact congrArg (ConfigVersion.name <$> ·) (assertId_json label id)

@[simp] theorem assertBool_json (b : Bool) : assertBool (some (.bool b)) label = .ok b := rfl

@[simp] theorem assertArray_json (items : List Value) :
    assertArray (some (.arr items)) label = .ok items := rfl

theorem parseEnum_json {α : Type} {text : α → String} {all : List α} {a : α}
    (found : all.find? (fun b => text b == text a) = some a) :
    parseEnum text all (some (jsonString (text a))) = some a := found

theorem optionally_json {α : Type} {check : Option Value → Except DomainError α}
    {toJson : α → Value} (o : Option α) (accepts : ∀ a, check (some (toJson a)) = .ok a) :
    optionally check (o.map toJson) = .ok o := by
  cases o with
  | none => rfl
  | some a => simp [optionally, accepts]

theorem eachAt_json {α : Type} {check : Nat → Value → Except DomainError α} {toJson : α → Value}
    {all : List α} (accepts : ∀ i, ∀ a ∈ all, check i (toJson a) = .ok a) (index : Nat) :
    eachAt check index (all.map toJson) = .ok all := by
  induction all generalizing index with
  | nil => rfl
  | cons a rest ih =>
      simp only [List.map_cons, eachAt, accepts index a (by simp), ok_bind,
        ih (fun i b mem => accepts i b (by simp [mem]))]
      rfl

theorem canonicalize_then {α : Type} {v : Value} (fits : canonicalizable v 0 = true)
    (next : Except DomainError α) : (canonicalize v >>= fun _ => next) = next := by
  obtain ⟨text, run⟩ := canonicalize_isOk fits
  rw [run, ok_bind]

theorem cloneTyped_json {α : Type} {toJson : α → Value} {a : α}
    (fits : canonicalizable (toJson a) 0 = true) : cloneTyped toJson a = .ok a := by
  obtain ⟨text, run⟩ := canonicalize_isOk fits
  simp only [cloneTyped, cloneCanonical, run, ok_bind]
  rfl

theorem cloneTyped_ok {α : Type} {toJson : α → Value} {a b : α}
    (run : cloneTyped toJson a = .ok b) : b = a := by
  obtain ⟨_, _, same⟩ := bind_ok.mp run
  exact (Except.ok.inj same).symm

theorem Ensures.clone {α : Type} {toJson : α → Value} {P : α → Prop} {a : α} (holds : P a) :
    Ensures P (cloneTyped toJson a) :=
  Ensures.bind fun _ _ => Ensures.ok holds

/-- A property that is left out is canonicalizable. -/
def canonicalizableOption (o : Option Value) (depth : Nat) : Prop :=
  ∀ v ∈ o, canonicalizable v depth = true

@[simp] theorem canonicalizableOption_some {v : Value} {depth : Nat} :
    canonicalizableOption (some v) depth ↔ canonicalizable v depth = true := by
  simp [canonicalizableOption]

@[simp] theorem canonicalizableOption_map {α : Type} {toJson : α → Value} {o : Option α}
    {depth : Nat} : canonicalizableOption (o.map toJson) depth ↔
      ∀ a ∈ o, canonicalizable (toJson a) depth = true :=
  Option.forall_mem_map

theorem canonicalizable_record {l : List (String × Option Value)} {depth : Nat} :
    canonicalizable (record l) depth = true ↔ depth ≤ maxCanonicalDepth ∧
      ∀ f ∈ l, canonicalizableOption f.2 (depth + 1) := by
  rw [record, canonicalizable, Bool.and_eq_true, Nat.ble_eq, canonicalizableFields_iff]
  refine and_congr_right fun _ => ⟨fun each f mem v some => ?_, fun each f mem => ?_⟩
  · exact (each (.wellFormed f.1, v) (List.mem_filterMap.mpr
      ⟨f, mem, Option.map_eq_some_iff.mpr ⟨v, some, rfl⟩⟩)).2
  · obtain ⟨g, inside, some⟩ := List.mem_filterMap.mp mem
    obtain ⟨v, present, rfl⟩ := Option.map_eq_some_iff.mp some
    exact ⟨rfl, each g inside v present⟩

@[simp] theorem canonicalizable_jsonString {s : String} {depth : Nat} :
    canonicalizable (jsonString s) depth = true ↔ depth ≤ maxCanonicalDepth := by
  simp [jsonString, canonicalizable]

@[simp] theorem canonicalizable_jsonText {pattern : String → Prop} {t : Subtype pattern}
    {depth : Nat} : canonicalizable (jsonText t) depth = true ↔ depth ≤ maxCanonicalDepth :=
  canonicalizable_jsonString

@[simp] theorem canonicalizable_bool {b : Bool} {depth : Nat} :
    canonicalizable (.bool b) depth = true ↔ depth ≤ maxCanonicalDepth := by
  simp [canonicalizable]

@[simp] theorem SafeInt.le_max {minimum : Nat} (n : SafeInt minimum) :
    n.1 ≤ 9007199254740991 := n.2.2

@[simp] theorem canonicalizable_jsonNat {n depth : Nat} :
    canonicalizable (jsonNat n) depth = true ↔
      depth ≤ maxCanonicalDepth ∧ n ≤ 9007199254740991 := by
  simp [jsonNat, canonicalizable, canonicalNumberOk, isSafeInteger, maxSafeInteger]

theorem canonicalizable_arr {α : Type} {toJson : α → Value} {all : List α} {depth : Nat} :
    canonicalizable (.arr (all.map toJson)) depth = true ↔ depth ≤ maxCanonicalDepth ∧
      all.length ≤ maxCanonicalArrayItems ∧
      ∀ a ∈ all, canonicalizable (toJson a) (depth + 1) = true := by
  simp [canonicalizable, canonicalizableItems_iff]

/-- A list passes `assertUniqueCanonical` when its items have different sorted forms. -/
theorem assertUniqueFrom_ok {values : List Value} {seen : List String} {u : Unit} :
    assertUniqueFrom label values seen = .ok u ↔
      (∀ v ∈ values, ∃ text, canonicalize v = .ok text ∧ text ∉ seen) ∧
        (values.map Value.normalize).Nodup := by
  induction values generalizing seen with
  | nil => simp [assertUniqueFrom]
  | cons v rest ih =>
      simp only [assertUniqueFrom, bind_ok, valid_ok, ih, Bool.not_eq_true', exists_const,
        List.contains_eq_mem, decide_eq_false_iff_not, List.mem_cons, forall_eq_or_imp,
        List.map_cons, List.nodup_cons, List.mem_map, not_exists, not_and, not_or]
      constructor
      · rintro ⟨text, run, fresh, others, nodup⟩
        refine ⟨⟨⟨text, run, fresh⟩, fun w mem => ?_⟩, fun w mem same => ?_, nodup⟩
        · obtain ⟨t, runs, _, unseen⟩ := others w mem
          exact ⟨t, runs, unseen⟩
        · obtain ⟨t, runs, differs, _⟩ := others w mem
          rw [canonicalize_congr same, run] at runs
          exact differs (Except.ok.inj runs).symm
      · rintro ⟨⟨⟨text, run, fresh⟩, others⟩, differ, nodup⟩
        refine ⟨text, run, fresh, fun w mem => ?_, nodup⟩
        obtain ⟨t, runs, unseen⟩ := others w mem
        refine ⟨t, runs, fun same => ?_, unseen⟩
        exact differ w mem (canonicalize_inj runs (same ▸ run))

theorem assertUniqueCanonical_ok {values : List Value} {u : Unit} :
    assertUniqueCanonical values label = .ok u ↔
      (∀ v ∈ values, ∃ text, canonicalize v = .ok text) ∧
        (values.map Value.normalize).Nodup := by
  simp [assertUniqueCanonical, assertUniqueFrom_ok]

@[simp] theorem normalize_jsonString (s : String) : (jsonString s).normalize = jsonString s :=
  Value.normalize_str _

@[simp] theorem normalize_jsonNat (n : Nat) : (jsonNat n).normalize = jsonNat n :=
  Value.normalize_num _

theorem jsonString_inj {s t : String} : jsonString s = jsonString t ↔ s = t := by
  simp [jsonString]

/-- Strings are unique when they are pairwise different. -/
theorem assertUniqueCanonical_strings {α : Type} {text : α → String} {all : List α} {u : Unit}
    (inj : Function.Injective text) :
    assertUniqueCanonical (all.map fun a => jsonString (text a)) label = .ok u ↔ all.Nodup := by
  rw [assertUniqueCanonical_ok, List.map_map]
  have same : (Value.normalize ∘ fun a => jsonString (text a)) =
      fun a => jsonString (text a) := funext fun a => normalize_jsonString _
  rw [same, List.nodup_map_iff fun a b h => inj (jsonString_inj.mp h)]
  refine ⟨And.right, fun nodup => ⟨fun v mem => ?_, nodup⟩⟩
  obtain ⟨a, _, rfl⟩ := List.mem_map.mp mem
  exact canonicalize_isOk (canonicalizable_jsonString.mpr (by simp [maxCanonicalDepth]))

end Json

/-! ## Digests -/

section Digests

variable [Sha256] (text : String)

theorem hexChar_hexDigest : ∀ c ∈ (Sha256.hexDigest text).toList, hexChar c = true := by
  intro c mem
  rcases Sha256.hex_hexDigest text c mem with digit | letter
  · have range : 48 ≤ c.toNat ∧ c.toNat ≤ 57 := by
      simpa [Char.isDigit, UInt32.le_iff_toNat_le] using digit
    simp [hexChar, digitChar, inRange, range]
  · have range : 97 ≤ c.toNat ∧ c.toNat ≤ 102 := letter
    simp [hexChar, inRange, range]

theorem isDigest_sha256 : isDigest ("sha256:" ++ Sha256.hexDigest text) = true := by
  have length := Sha256.length_hexDigest text
  have drop : ("sha256:" ++ Sha256.hexDigest text).toList.drop 7 =
      (Sha256.hexDigest text).toList := by
    rw [String.toList_append]; rfl
  have take : ("sha256:" ++ Sha256.hexDigest text).toList.take 7 = "sha256:".toList := by
    rw [String.toList_append]; rfl
  simp only [isDigest, drop, take, length, beq_self_eq_true, Bool.and_true, Bool.true_and]
  exact List.all_eq_true.mpr (hexChar_hexDigest text)

end Digests

end Knowledger
