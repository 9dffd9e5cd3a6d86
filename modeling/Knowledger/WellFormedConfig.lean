import Knowledger.WellFormed

/-!
# Valid policies and configurations

What `validatePolicy` and `validateConfig` accept: every required role has one
representative, a configured human, and no name is used twice.
-/

namespace Knowledger

open Js

/-! ## Representatives -/

theorem RoleRepresentative.canonicalizable_json (r : RoleRepresentative) {depth : Nat}
    (shallow : depth ≤ 100) : canonicalizable r.toJson depth = true := by
  simp [RoleRepresentative.toJson, canonicalizable_record, maxCanonicalDepth]
  omega

theorem isString_any_json (ids : List Id) (id : Id) :
    ((ids.map jsonText).any fun r => isString r id.1) = true ↔ id ∈ ids := by
  simp only [List.any_eq_true, List.mem_map, exists_exists_and_eq_and, jsonText, isString_json,
    beq_iff_eq, Subtype.val_inj, exists_eq_right]

/-- `assertId` lets a value through that is the string of the id. -/
theorem assertId_ok {v : Value} {label : String} {id : Id}
    (run : assertId (some v) label = .ok id) : v = jsonText id := by
  unfold assertId assertPattern at run
  split at run
  next s value =>
    split_ifs at run
    · cases run
      exact Option.some.inj value
    · cases run
  next => cases run

theorem eachAt_ids {label : Nat → String} {items : List Value} {index : Nat} {ids : List Id}
    (run : eachAt (fun i v => assertId v (label i)) index items = .ok ids) :
    items = ids.map jsonText := by
  induction items generalizing index ids with
  | nil =>
      cases run
      rfl
  | cons v rest ih =>
      simp only [eachAt, bind_ok, pure_ok] at run
      obtain ⟨id, head, others, tail, rfl⟩ := run
      rw [List.map_cons, ih tail, assertId_ok head]

/-- The representatives of `required`, apart from the roles and actors seen before. -/
structure RepresentativesOk (required : List Id) (reps : List RoleRepresentative)
    (roles : List Id) (seen : List String) : Prop where
  mem_required : ∀ r ∈ reps, r.domainRole ∈ required
  roles_nodup : (reps.map RoleRepresentative.domainRole).Nodup
  roles_fresh : ∀ r ∈ reps, r.domainRole ∉ roles
  keys_nodup : (reps.map repKey).Nodup
  keys_fresh : ∀ r ∈ reps, repKey r ∉ seen
  complete : roles.length + reps.length = required.length

theorem representativesOk_cons {required : List Id} {r : RoleRepresentative}
    {reps : List RoleRepresentative} {roles : List Id} {seen : List String} :
    RepresentativesOk required (r :: reps) roles seen ↔
      r.domainRole ∈ required ∧ r.domainRole ∉ roles ∧ repKey r ∉ seen ∧
        RepresentativesOk required reps (r.domainRole :: roles) (repKey r :: seen) := by
  constructor
  · rintro ⟨inRoles, nodup, fresh, keys, keysFresh, complete⟩
    simp only [List.map_cons, List.nodup_cons, List.mem_map, not_exists, not_and] at nodup keys
    refine ⟨inRoles r (by simp), fresh r (by simp), keysFresh r (by simp),
      fun q mem => inRoles q (by simp [mem]), nodup.2, fun q mem => ?_, keys.2,
      fun q mem => ?_, by simp only [List.length_cons] at complete ⊢; omega⟩
    · simp only [List.mem_cons, not_or]
      exact ⟨nodup.1 q mem, fresh q (by simp [mem])⟩
    · simp only [List.mem_cons, not_or]
      exact ⟨keys.1 q mem, keysFresh q (by simp [mem])⟩
  · rintro ⟨inRole, freshRole, freshKey, inRoles, nodup, fresh, keys, keysFresh, complete⟩
    simp only [List.mem_cons, not_or] at fresh keysFresh
    refine ⟨?_, ?_, ?_, ?_, ?_, by simp only [List.length_cons] at complete ⊢; omega⟩
    · rintro q (_ | ⟨_, mem⟩)
      exacts [inRole, inRoles q mem]
    · simp only [List.map_cons, List.nodup_cons, List.mem_map, not_exists, not_and]
      exact ⟨fun q mem => (fresh q mem).1, nodup⟩
    · rintro q (_ | ⟨_, mem⟩)
      exacts [freshRole, (fresh q mem).2]
    · simp only [List.map_cons, List.nodup_cons, List.mem_map, not_exists, not_and]
      exact ⟨fun q mem => (keysFresh q mem).1, keys⟩
    · rintro q (_ | ⟨_, mem⟩)
      exacts [freshKey, (keysFresh q mem).2]

theorem validateRepresentatives_normalize (required items : List Value) (index : Nat)
    (roles : List Id) (seen : List String) :
    outcome (validateRepresentatives (required.map Value.normalize) index
        (items.map Value.normalize) roles seen) =
      outcome (validateRepresentatives required index items roles seen) := by
  have string : ∀ (v : Value) (text : String),
      isString v.normalize text = isString v text :=
    fun v text => isString_normalize (some v) text
  induction items generalizing index roles seen with
  | nil => simp only [List.map_nil, validateRepresentatives, List.length_map]
  | cons v rest ih =>
      have record := assertRecord_normalize (some v) (at_ "policy.role_representatives" index)
      rw [Option.map_some] at record
      simp only [List.map_cons, validateRepresentatives, outcome_bind, record, map_bind,
        assertKeys_normalize, Fields.get_normalize, assertId_normalize, List.any_map,
        Function.comp_def, string, canonicalize_obj_normalize, ih]

theorem validateRepresentatives_json {required : List Id} {reps : List RoleRepresentative}
    {index : Nat} {roles : List Id} {seen : List String}
    (ok : RepresentativesOk required reps roles seen) :
    validateRepresentatives (required.map jsonText) index (reps.map RoleRepresentative.toJson)
      roles seen = .ok reps := by
  induction reps generalizing index roles seen with
  | nil =>
      have complete := ok.complete
      simp only [List.length_nil, Nat.add_zero] at complete
      simp [validateRepresentatives, complete]
  | cons r reps ih =>
      obtain ⟨inRole, freshRole, freshKey, others⟩ := representativesOk_cons.mp ok
      have fits := r.canonicalizable_json (Nat.zero_le 100)
      rw [List.map_cons, validateRepresentatives, RoleRepresentative.toJson, assertRecord_record]
      have clone : cloneTyped RoleRepresentative.toJson r = .ok r := cloneTyped_json fits
      simp only [RoleRepresentative.toJson] at fits
      simp [-List.any_map, assertKeys_recordFields, (isString_any_json _ _).mpr inRole, freshRole,
        freshKey]
      rw [← record, canonicalize_then fits, clone, ok_bind, ih others]
      rfl

/-- `validateRepresentatives_json` read backwards, for any input. -/
theorem validateRepresentatives_ok {required : List Id} {items : List Value}
    {reps : List RoleRepresentative} {index : Nat} {roles : List Id} {seen : List String}
    (run : validateRepresentatives (required.map jsonText) index items roles seen = .ok reps) :
    RepresentativesOk required reps roles seen := by
  induction items generalizing index roles seen reps with
  | nil =>
      simp only [validateRepresentatives, bind_ok, valid_ok, beq_iff_eq, pure_ok,
        List.length_map, exists_const] at run
      obtain ⟨complete, rfl⟩ := run
      exact ⟨List.forall_mem_nil _, List.nodup_nil, List.forall_mem_nil _, List.nodup_nil,
        List.forall_mem_nil _, complete⟩
  | cons v rest ih =>
      simp only [validateRepresentatives, bind_ok, valid_ok, exists_const, isString_any_json,
        Bool.not_eq_true', List.contains_eq_mem, decide_eq_false_iff_not, pure_ok] at run
      obtain ⟨_, _, _, _, role, _, org, _, actor, _, inRole, freshRole, freshKey, _, _, r, clone,
        others, tail, rfl⟩ := run
      have same : r = ⟨role, org, actor⟩ := cloneTyped_ok clone
      subst same
      exact representativesOk_cons.mpr ⟨inRole, freshRole, freshKey, ih tail⟩

/-! ## Policies -/

/-- A policy has one to 32 roles and a representative for each. -/
structure AgreementPolicy.Valid (p : AgreementPolicy) : Prop where
  roles_pos : 1 ≤ p.requiredDomainRoles.length
  roles_le : p.requiredDomainRoles.length ≤ 32
  roles_nodup : p.requiredDomainRoles.Nodup
  decisions_pos : 1 ≤ p.allowedDecisions.length
  decisions_nodup : p.allowedDecisions.Nodup
  representatives : RepresentativesOk p.requiredDomainRoles p.roleRepresentatives [] []

theorem validatePolicy_normalize (o : Option Value) :
    outcome (validatePolicy (o.map Value.normalize)) = outcome (validatePolicy o) := by
  simp only [validatePolicy, outcome_bind, assertRecord_normalize, map_bind,
    assertKeys_normalize, Fields.get_normalize, assertId_normalize, assertUsageScope_normalize,
    assertSafeInteger_normalize, isString_normalize, isNat_normalize, assertArray_normalize,
    List.length_map, eachAt_normalize, assertItem_normalize, assertUniqueCanonical_normalize,
    validateRepresentatives_normalize, implies_true]

theorem validatePolicy_json {p : AgreementPolicy} (valid : p.Valid) :
    validatePolicy (some p.toJson) = .ok p := by
  have roles : eachAt (fun index v => assertId v (at_ "policy.required_domain_roles" index)) 0
      (p.requiredDomainRoles.map jsonText) = .ok p.requiredDomainRoles :=
    eachAt_json (fun _ id _ => assertId_json _ id) 0
  have decisions : eachAt (fun index v => assertId v (at_ "policy.allowed_decisions" index)) 0
      (p.allowedDecisions.map jsonText) = .ok p.allowedDecisions :=
    eachAt_json (fun _ id _ => assertId_json _ id) 0
  have rolesUnique : assertUniqueCanonical (p.requiredDomainRoles.map jsonText)
      "policy.required_domain_roles" = .ok () :=
    (assertUniqueCanonical_strings _ Subtype.val_injective).mpr valid.roles_nodup
  have decisionsUnique : assertUniqueCanonical (p.allowedDecisions.map jsonText)
      "policy.allowed_decisions" = .ok () :=
    (assertUniqueCanonical_strings _ Subtype.val_injective).mpr valid.decisions_nodup
  have complete : p.roleRepresentatives.length = p.requiredDomainRoles.length := by
    simpa using valid.representatives.complete
  rw [validatePolicy, AgreementPolicy.toJson, assertRecord_record]
  simp [assertKeys_recordFields, roles, decisions, rolesUnique, decisionsUnique, complete,
    validateRepresentatives_json valid.representatives, valid.roles_pos, valid.roles_le,
    valid.decisions_pos]

theorem validatePolicy_valid (o : Option Value) :
    Ensures AgreementPolicy.Valid (validatePolicy o) := by
  unfold validatePolicy
  repeat with_reducible refine Ensures.bind fun _ _ => ?_
  rename_i roles _ _ rolesBounds ids rolesRun _ rolesUnique decisions _ _ decisionsPos allowed
    decisionsRun _ decisionsUnique _ _ representatives _ _ _ reps repsRun
  rw [eachAt_ids rolesRun] at rolesBounds rolesUnique repsRun
  rw [eachAt_ids decisionsRun] at decisionsPos decisionsUnique
  simp only [valid_ok, Bool.and_eq_true, decide_eq_true_eq, List.length_map]
    at rolesBounds decisionsPos
  exact Ensures.ok
    { roles_pos := rolesBounds.1
      roles_le := rolesBounds.2
      roles_nodup := (assertUniqueCanonical_strings _ Subtype.val_injective).mp rolesUnique
      decisions_pos := decisionsPos
      decisions_nodup := (assertUniqueCanonical_strings _ Subtype.val_injective).mp decisionsUnique
      representatives := validateRepresentatives_ok repsRun }

/-! ## Identities -/

theorem PublishContext.text_injective : Function.Injective PublishContext.text := by
  have star : ∀ id : Id, id.1 ≠ "*" := by
    rintro ⟨s, isId⟩ rfl
    exact absurd isId (by decide)
  rintro (_ | a) (_ | b) same
  · rfl
  · exact absurd same.symm (star b)
  · exact absurd same (star a)
  · exact congrArg _ (Subtype.ext same)

theorem validatePublishContext_normalize (label : String) (index : Nat) (v : Value) :
    validatePublishContext label index v.normalize = validatePublishContext label index v := by
  have string := isString_normalize (some v) "*"
  rw [Option.map_some] at string
  simp only [validatePublishContext, string, assertItem_normalize]

theorem validatePublishContext_json (label : String) (index : Nat) (c : PublishContext) :
    validatePublishContext label index (jsonString c.text) = .ok c := by
  cases c with
  | all => rfl
  | context id =>
      have differs : (id.1 == "*") = false := by
        have other : PublishContext.text (.context id) ≠ PublishContext.text .all :=
          fun same => nomatch PublishContext.text_injective same
        exact beq_false_of_ne other
      simp [validatePublishContext, PublishContext.text, differs]

/-- The raw context is the text of the one returned. -/
theorem eachAt_contexts {label : String} {items : List Value} {index : Nat}
    {contexts : List PublishContext}
    (run : eachAt (validatePublishContext label) index items = .ok contexts) :
    items = contexts.map fun c => jsonString c.text := by
  induction items generalizing index contexts with
  | nil =>
      cases run
      rfl
  | cons v rest ih =>
      simp only [eachAt, bind_ok, pure_ok] at run
      obtain ⟨c, head, others, tail, rfl⟩ := run
      rw [List.map_cons, ih tail]
      congr 1
      unfold validatePublishContext at head
      split_ifs at head with star
      · cases head
        unfold isString at star
        split at star
        next s value =>
          rw [beq_iff_eq.mp star] at value
          exact Option.some.inj value
        next => cases star
      · obtain ⟨id, run, rfl⟩ := map_ok.mp head
        exact assertId_ok run

/-- An identity lists no context twice. -/
def ConfigIdentity.Valid (i : ConfigIdentity) : Prop := i.publishContexts.Nodup

theorem validateIdentities_normalize (items : List Value) (index : Nat) (seen : List String) :
    outcome (validateIdentities index (items.map Value.normalize) seen) =
      outcome (validateIdentities index items seen) := by
  induction items generalizing index seen with
  | nil => rfl
  | cons v rest ih =>
      have record := assertRecord_normalize (some v) (at_ "config.identities" index)
      rw [Option.map_some] at record
      simp only [List.map_cons, validateIdentities, outcome_bind, record, map_bind,
        assertKeys_normalize, Fields.get_normalize, assertId_normalize, parseEnum_normalize,
        assertArray_normalize, eachAt_normalize, validatePublishContext_normalize,
        assertUniqueCanonical_normalize, assertBool_normalize, ih, implies_true]

/-- The identities are valid and none has the key of another or of `seen`. -/
structure IdentitiesOk (identities : List ConfigIdentity) (seen : List String) : Prop where
  valid : ∀ i ∈ identities, i.Valid
  nodup : (identities.map identityKey).Nodup
  fresh : ∀ i ∈ identities, identityKey i ∉ seen

theorem identitiesOk_cons {i : ConfigIdentity} {rest : List ConfigIdentity}
    {seen : List String} : IdentitiesOk (i :: rest) seen ↔
      i.Valid ∧ identityKey i ∉ seen ∧ IdentitiesOk rest (identityKey i :: seen) := by
  constructor
  · rintro ⟨valid, nodup, fresh⟩
    simp only [List.map_cons, List.nodup_cons, List.mem_map, not_exists, not_and] at nodup
    refine ⟨valid i (by simp), fresh i (by simp), fun j mem => valid j (by simp [mem]), nodup.2,
      fun j mem => ?_⟩
    simp only [List.mem_cons, not_or]
    exact ⟨nodup.1 j mem, fresh j (by simp [mem])⟩
  · rintro ⟨head, unseen, valid, nodup, fresh⟩
    simp only [List.mem_cons, not_or] at fresh
    refine ⟨?_, ?_, ?_⟩
    · rintro j (_ | ⟨_, mem⟩)
      exacts [head, valid j mem]
    · simp only [List.map_cons, List.nodup_cons, List.mem_map, not_exists, not_and]
      exact ⟨fun j mem => (fresh j mem).1, nodup⟩
    · rintro j (_ | ⟨_, mem⟩)
      exacts [unseen, (fresh j mem).2]

theorem validateIdentities_json {identities : List ConfigIdentity} {index : Nat}
    {seen : List String} (ok : IdentitiesOk identities seen) :
    validateIdentities index (identities.map ConfigIdentity.toJson) seen = .ok identities := by
  induction identities generalizing index seen with
  | nil => rfl
  | cons i rest ih =>
      obtain ⟨valid, unseen, others⟩ := identitiesOk_cons.mp ok
      have kind : parseEnum ActorKind.text actorKinds (some (jsonString i.kind.text)) =
          some i.kind := parseEnum_json (by cases i.kind <;> decide)
      have contexts : ∀ label, eachAt (validatePublishContext label) 0
          (i.publishContexts.map fun c => jsonString c.text) = .ok i.publishContexts :=
        fun label => eachAt_json (fun j c _ => validatePublishContext_json label j c) 0
      have unique : ∀ label, assertUniqueCanonical
          (i.publishContexts.map fun c => jsonString c.text) label = .ok () :=
        fun label => (assertUniqueCanonical_strings label PublishContext.text_injective).mpr valid
      rw [List.map_cons, validateIdentities, ConfigIdentity.toJson, assertRecord_record]
      simp [assertKeys_recordFields, kind, contexts, unique, unseen, ih others]

theorem validateIdentities_ok {items : List Value} {identities : List ConfigIdentity}
    {index : Nat} {seen : List String}
    (run : validateIdentities index items seen = .ok identities) :
    IdentitiesOk identities seen ∧ identities.length = items.length := by
  induction items generalizing index seen identities with
  | nil =>
      cases run
      exact ⟨⟨nofun, List.nodup_nil, nofun⟩, rfl⟩
  | cons v rest ih =>
      simp only [validateIdentities, bind_ok, valid_ok, exists_const, Bool.not_eq_true',
        List.contains_eq_mem, decide_eq_false_iff_not, pure_ok] at run
      obtain ⟨_, _, _, _, org, _, actor, _, kind, _, raw, _, contexts, contextsRun, _,
        unique, canPropose, _, unseen, others, tail, rfl⟩ := run
      obtain ⟨ok, length⟩ := ih tail
      rw [eachAt_contexts contextsRun] at unique
      have nodup := (assertUniqueCanonical_strings _ PublishContext.text_injective).mp unique
      exact ⟨identitiesOk_cons.mpr ⟨nodup, unseen, ok⟩, by simp [length]⟩

/-! ## Configurations -/

/-- The representative is the configured human of that name. -/
def configuredHuman (identities : List ConfigIdentity) (r : RoleRepresentative) : Bool :=
  (identities.find? fun candidate =>
    candidate.orgId == r.actorOrgId && candidate.actorId == r.actorId).any fun i =>
      i.kind == .human

theorem assertRepresentatives_ok {identities : List ConfigIdentity}
    {reps : List RoleRepresentative} {u : Unit} :
    assertRepresentatives identities reps = .ok u ↔
      ∀ r ∈ reps, configuredHuman identities r = true := by
  induction reps with
  | nil => exact ⟨fun _ _ mem => (nomatch mem), fun _ => rfl⟩
  | cons r rest ih =>
      simp only [assertRepresentatives, bind_ok, valid_ok, exists_const, ih, List.mem_cons,
        forall_eq_or_imp, configuredHuman]

/-- A policy that fits the config it is listed in. -/
structure PolicyFits (channelId : Id) (membershipEpoch roleBindingVersion : SafeInt 1)
    (identities : List ConfigIdentity) (p : AgreementPolicy) : Prop where
  valid : p.Valid
  channel : p.channelId = channelId
  membership : p.membershipEpoch = membershipEpoch
  binding : p.roleBindingVersion = roleBindingVersion
  humans : ∀ r ∈ p.roleRepresentatives, configuredHuman identities r = true

section Policies

variable {channelId : Id} {membershipEpoch roleBindingVersion : SafeInt 1}
  {identities : List ConfigIdentity}

theorem validatePolicies_normalize (items : List Value) (index : Nat) (seen : List String) :
    outcome (validatePolicies channelId membershipEpoch roleBindingVersion identities index
        (items.map Value.normalize) seen) =
      outcome (validatePolicies channelId membershipEpoch roleBindingVersion identities index
        items seen) := by
  induction items generalizing index seen with
  | nil => rfl
  | cons v rest ih =>
      have policy := validatePolicy_normalize (some v)
      rw [Option.map_some] at policy
      simp only [List.map_cons, validatePolicies, outcome_bind, policy, ih]

theorem validatePolicies_json {policies : List AgreementPolicy} {index : Nat}
    {seen : List String}
    (fits : ∀ p ∈ policies,
      PolicyFits channelId membershipEpoch roleBindingVersion identities p)
    (nodup : (policies.map policyKey).Nodup) (fresh : ∀ p ∈ policies, policyKey p ∉ seen) :
    validatePolicies channelId membershipEpoch roleBindingVersion identities index
      (policies.map AgreementPolicy.toJson) seen = .ok policies := by
  induction policies generalizing index seen with
  | nil => rfl
  | cons p rest ih =>
      have head := fits p (by simp)
      simp only [List.map_cons, List.nodup_cons, List.mem_map, not_exists, not_and] at nodup
      have unseen : ∀ q ∈ rest, policyKey q ∉ policyKey p :: seen := fun q mem => by
        simp only [List.mem_cons, not_or]
        exact ⟨nodup.1 q mem, fresh q (by simp [mem])⟩
      have humans : assertRepresentatives identities p.roleRepresentatives = .ok () :=
        assertRepresentatives_ok.mpr head.humans
      rw [List.map_cons, validatePolicies, validatePolicy_json head.valid]
      simp [head.channel, head.membership, head.binding, fresh p (by simp),
        humans, ih (fun q mem => fits q (by simp [mem])) nodup.2 unseen]

theorem validatePolicies_ok {items : List Value} {policies : List AgreementPolicy}
    {index : Nat} {seen : List String}
    (run : validatePolicies channelId membershipEpoch roleBindingVersion identities index items
      seen = .ok policies) :
    (∀ p ∈ policies, PolicyFits channelId membershipEpoch roleBindingVersion identities p) ∧
      (policies.map policyKey).Nodup ∧ (∀ p ∈ policies, policyKey p ∉ seen) ∧
      policies.length = items.length := by
  induction items generalizing index seen policies with
  | nil =>
      cases run
      exact ⟨nofun, List.nodup_nil, nofun, rfl⟩
  | cons v rest ih =>
      simp only [validatePolicies, bind_ok, valid_ok, exists_const, Bool.not_eq_true',
        List.contains_eq_mem, decide_eq_false_iff_not, pure_ok, beq_iff_eq,
        assertRepresentatives_ok] at run
      obtain ⟨p, validated, channel, membership, binding, unseen, humans, others, tail, rfl⟩ :=
        run
      obtain ⟨fits, nodup, fresh, length⟩ := ih tail
      simp only [List.mem_cons, not_or] at fresh
      refine ⟨?_, ?_, ?_, by simp [length]⟩
      · rintro q (_ | ⟨_, mem⟩)
        exacts [⟨validatePolicy_valid _ _ validated, channel, membership, binding, humans⟩,
          fits q mem]
      · simp only [List.map_cons, List.nodup_cons, List.mem_map, not_exists, not_and]
        exact ⟨fun q mem => (fresh q mem).1, nodup⟩
      · rintro q (_ | ⟨_, mem⟩)
        exacts [unseen, (fresh q mem).2]

end Policies

/-- What a config guarantees. -/
structure DomainConfig.Valid (c : DomainConfig) : Prop where
  identities_pos : 1 ≤ c.identities.length
  identities : IdentitiesOk c.identities []
  policies_pos : 1 ≤ c.policies.length
  policies : ∀ p ∈ c.policies,
    PolicyFits c.channelId c.membershipEpoch c.roleBindingVersion c.identities p
  policies_nodup : (c.policies.map policyKey).Nodup

theorem validateConfig_normalize (o : Option Value) :
    outcome (validateConfig (o.map Value.normalize)) = outcome (validateConfig o) := by
  simp only [validateConfig, outcome_bind, assertRecord_normalize, map_bind,
    assertKeys_normalize, Fields.get_normalize, assertVersion_normalize, assertId_normalize,
    assertSafeInteger_normalize, assertBool_normalize, assertArray_normalize, List.length_map,
    validateIdentities_normalize, validatePolicies_normalize]

theorem validateConfig_json {c : DomainConfig} (valid : c.Valid) :
    validateConfig (some c.toJson) = .ok c := by
  have identities : validateIdentities 0 (c.identities.map ConfigIdentity.toJson) [] =
      .ok c.identities := validateIdentities_json valid.identities
  have policies : validatePolicies c.channelId c.membershipEpoch c.roleBindingVersion
      c.identities 0 (c.policies.map AgreementPolicy.toJson) [] = .ok c.policies :=
    validatePolicies_json valid.policies valid.policies_nodup nofun
  rw [validateConfig, DomainConfig.toJson, assertRecord_record]
  simp [assertKeys_recordFields, identities, policies, valid.identities_pos,
    valid.policies_pos]

theorem validateConfig_valid (o : Option Value) :
    Ensures DomainConfig.Valid (validateConfig o) := by
  unfold validateConfig
  repeat with_reducible refine Ensures.bind fun _ _ => ?_
  rename_i entries _ _ entriesPos identities identitiesRun raw _ _ rawPos policies policiesRun
  simp only [valid_ok, decide_eq_true_eq] at entriesPos rawPos
  obtain ⟨identitiesOk, identitiesLength⟩ := validateIdentities_ok identitiesRun
  obtain ⟨fits, nodup, _, policiesLength⟩ := validatePolicies_ok policiesRun
  exact Ensures.ok
    { identities_pos := identitiesLength ▸ entriesPos
      identities := identitiesOk
      policies_pos := policiesLength ▸ rawPos
      policies := fits
      policies_nodup := nodup }

end Knowledger
