import Knowledger.Preservation

/-!
# Approval manifests

`validateAgreementApprovals` assigns the cited decisions to the required roles one role
after the other, taking the first unselected candidate that fits.  Roles and candidates are
listed once and a decision is made in one role, so at most one candidate fits a role: the
greedy choice finds the one-to-one correspondence whenever there is one, and in the order of
the roles.
-/

namespace Knowledger

open Js Txn

/-! ## One decision for each role -/

/-- A valid decision is stored under the id. -/
def Recorded (s : Store) (id : Id) (d : ApprovalDecision) : Prop :=
  ∃ value, present (s (keyFor.decision id.1)) = some value ∧ validateDecision (some value) = .ok d

/-- The id names an approval of the role's representative, in the role, that is bound to the
target of the agreement. -/
structure Cites (s : Store) (policy : AgreementPolicy) (a : AgreementRecord) (role id : Id)
    (d : ApprovalDecision) : Prop where
  recorded : Recorded s id d
  kind : d.decision = .approve
  inRole : d.actorDomainRole = role
  representative : ∃ r ∈ policy.roleRepresentatives, r.domainRole = role ∧
    d.actorOrgId = r.actorOrgId ∧ d.actorId = r.actorId
  bound : d.target = a.target

section Choosing

variable {s : Store} {a : AgreementRecord} {policy : AgreementPolicy} {role id : Id}
  {r : RoleRepresentative} {d : ApprovalDecision} {selected candidates roles : List Id}

theorem Recorded.unique {e : ApprovalDecision} (left : Recorded s id d)
    (right : Recorded s id e) : d = e := by
  obtain ⟨v, stored, valid⟩ := left
  obtain ⟨u, found, same⟩ := right
  rw [stored] at found
  obtain rfl := Option.some.inj found
  rw [valid] at same
  exact Except.ok.inj same

/-- What one unselected candidate does to the scan. -/
theorem findApproval_recorded {rest : List Id} (fresh : id ∉ selected) (recorded : Recorded s id d) :
    (findApproval role r selected (id :: rest)).eval s =
      if d.decision ≠ .approve then
        checked (corruptApprovalState "agreement approval manifest points to a non-approval decision")
      else if d.actorDomainRole = role ∧ d.actorOrgId = r.actorOrgId ∧ d.actorId = r.actorId then
        .ok (some (id, d))
      else (findApproval role r selected rest).eval s := by
  obtain ⟨value, stored, valid⟩ := recorded
  rw [findApproval, if_neg (by simpa using fresh)]
  simp only [Query.eval_bind, eval_getRecord, stored, ok_bind, valid, Bool.and_eq_true, beq_iff_eq,
    and_assoc]
  split_ifs <;> simp

theorem findApproval_some {found : Id × ApprovalDecision}
    (run : (findApproval role r selected candidates).eval s = .ok (some found)) :
    found.1 ∈ candidates ∧ found.1 ∉ selected ∧ Recorded s found.1 found.2 ∧
      found.2.decision = .approve ∧ found.2.actorDomainRole = role ∧
      found.2.actorOrgId = r.actorOrgId ∧ found.2.actorId = r.actorId := by
  induction candidates with
  | nil => cases run
  | cons candidate rest ih =>
      have later (tail : (findApproval role r selected rest).eval s = .ok (some found)) := by
        obtain ⟨mem, others⟩ := ih tail
        exact And.intro (List.mem_cons_of_mem candidate mem) others
      by_cases taken : candidate ∈ selected
      · rw [findApproval, if_pos (by simpa using taken)] at run
        exact later run
      · cases stored : present (s (keyFor.decision candidate.1)) with
        | none =>
            rw [findApproval, if_neg (by simpa using taken)] at run
            simp [stored, corruptApprovalState, fail] at run
        | some value =>
            cases valid : validateDecision (some value) with
            | error e =>
                rw [findApproval, if_neg (by simpa using taken)] at run
                simp [stored, valid, corruptApprovalState, fail] at run
            | ok d =>
                have recorded : Recorded s candidate d := ⟨value, stored, valid⟩
                rw [findApproval_recorded taken recorded] at run
                split_ifs at run with other fits
                · cases run
                · obtain rfl := Option.some.inj (Except.ok.inj run)
                  exact ⟨List.mem_cons_self, taken, recorded, not_not.mp other, fits⟩
                · exact later run

/-- The scan finds the only candidate that fits, if it meets approvals alone. -/
theorem findApproval_fits (mem : id ∈ candidates) (fresh : id ∉ selected)
    (recorded : Recorded s id d) (role_eq : d.actorDomainRole = role)
    (org : d.actorOrgId = r.actorOrgId) (actor : d.actorId = r.actorId)
    (approvals : ∀ other ∈ candidates, other ∉ selected → ∃ e, Recorded s other e ∧
      e.decision = .approve ∧ (e.actorDomainRole = role → other = id)) :
    (findApproval role r selected candidates).eval s = .ok (some (id, d)) := by
  induction candidates with
  | nil => cases mem
  | cons candidate rest ih =>
      have later (differs : id ≠ candidate) := ih ((List.mem_cons.mp mem).resolve_left differs)
        fun other inside => approvals other (List.mem_cons_of_mem _ inside)
      by_cases taken : candidate ∈ selected
      · rw [findApproval, if_pos (by simpa using taken)]
        apply later
        rintro rfl
        exact fresh taken
      · obtain ⟨e, recordedE, kind, only⟩ := approvals candidate List.mem_cons_self taken
        rw [findApproval_recorded taken recordedE, if_neg (not_not.mpr kind)]
        by_cases same : candidate = id
        · subst same
          obtain rfl := recordedE.unique recorded
          rw [if_pos ⟨role_eq, org, actor⟩]
        · rw [if_neg fun fits => same (only fits.1)]
          exact later (Ne.symm same)

/-- A representative of a valid policy is the one found for its role. -/
theorem findRepresentative_mem (valid : policy.Valid) (mem : r ∈ policy.roleRepresentatives) :
    findRepresentative policy r.domainRole = some r := by
  cases found : findRepresentative policy r.domainRole with
  | none => simpa using List.find?_eq_none.mp found r mem
  | some q =>
      have listed := List.mem_of_find?_eq_some found
      have named := findRepresentative_role found
      exact congrArg some
        (List.inj_on_of_nodup_map valid.representatives.roles_nodup listed mem named)

theorem exists_of_forall₂ {α β : Type} {R : α → β → Prop} {l : List α} {m : List β}
    (all : List.Forall₂ R l m) {y : β} (mem : y ∈ m) : ∃ x ∈ l, R x y := by
  induction all with
  | nil => cases mem
  | @cons x _ _ _ related _ ih =>
      rcases List.mem_cons.mp mem with rfl | later
      · exact ⟨x, List.mem_cons_self, related⟩
      · obtain ⟨z, inside, holds⟩ := ih later
        exact ⟨z, List.mem_cons_of_mem _ inside, holds⟩

theorem exists_forall₂ {α β : Type} {R : α → β → Prop} {l : List α}
    (each : ∀ x ∈ l, ∃ y, R x y) : ∃ m, List.Forall₂ R l m := by
  induction l with
  | nil => exact ⟨[], .nil⟩
  | cons x l ih =>
      obtain ⟨y, related⟩ := each x List.mem_cons_self
      obtain ⟨m, rest⟩ := ih fun z inside => each z (List.mem_cons_of_mem _ inside)
      exact ⟨y :: m, .cons related rest⟩

/-- The greedy assignment succeeds just when the unselected candidates can be matched with the
remaining roles one to one, and returns their decisions in the order of the roles. -/
theorem collectApprovals_ok (valid : policy.Valid) (ids : a.approvalDecisionIds.Nodup)
    (nodup : roles.Nodup) (distinct : selected.Nodup) (cited : selected ⊆ a.approvalDecisionIds)
    {ds : List ApprovalDecision} :
    (collectApprovals a policy roles selected).eval s = .ok ds ↔
      ∃ chosen : List (Id × ApprovalDecision),
        (selected ++ chosen.map Prod.fst).Perm a.approvalDecisionIds ∧
        List.Forall₂ (fun role p => Cites s policy a role p.1 p.2) roles chosen ∧
        chosen.map Prod.snd = ds := by
  induction roles generalizing selected ds with
  | nil =>
      simp only [List.forall₂_nil_left_iff, collectApprovals]
      split_ifs with short
      · refine iff_of_false nofun ?_
        rintro ⟨_, perm, rfl, -⟩
        exact short (by simpa using perm.length_eq)
      · constructor
        · rintro ⟨⟩
          refine ⟨[], ?_, rfl, rfl⟩
          rw [List.map_nil, List.append_nil]
          exact (List.subperm_of_subset distinct cited).perm_of_length_le (not_not.mp short).ge
        · rintro ⟨_, -, rfl, rfl⟩
          rfl
  | cons role roles ih =>
      obtain ⟨absent, nodup⟩ := List.nodup_cons.mp nodup
      constructor
      · intro run
        rw [collectApprovals] at run
        cases named : findRepresentative policy role with
        | none => simp [named, corruptApprovalState, fail] at run
        | some r =>
            simp only [named, eval_bind_ok] at run
            obtain ⟨_ | ⟨id, d⟩, found, run⟩ := run
            · simp [corruptApprovalState, fail] at run
            · obtain ⟨mem, fresh, recorded, kind, inRole, org, actor⟩ := findApproval_some found
              dsimp only at run mem fresh recorded kind inRole org actor
              split_ifs at run with other
              · cases run
              · obtain ⟨rest, tail, same⟩ := eval_bind_ok.mp run
                obtain ⟨chosen, perm, cites, rfl⟩ := (ih nodup (List.nodup_cons.mpr ⟨fresh, distinct⟩)
                  (List.cons_subset.mpr ⟨mem, cited⟩)).mp tail
                refine ⟨(id, d) :: chosen, List.perm_middle.trans perm, .cons ?_ cites,
                  Except.ok.inj same⟩
                have listed := List.mem_of_find?_eq_some named
                exact ⟨recorded, kind, inRole, ⟨r, listed, findRepresentative_role named, org, actor⟩,
                  boundToAgreement_iff.mp (by simpa using other)⟩
      · rintro ⟨_, perm, cites, rfl⟩
        obtain ⟨⟨id, d⟩, chosen, first, rest, rfl⟩ := List.forall₂_cons_left_iff.mp cites
        obtain ⟨recorded, kind, inRole, ⟨r, listed, named, org, actor⟩, bound⟩ := first
        dsimp only at recorded kind inRole org actor bound
        rw [List.map_cons] at perm
        have apart := List.nodup_append.mp (perm.nodup_iff.mpr ids)
        have mem : id ∈ a.approvalDecisionIds := perm.subset (by simp)
        have fresh : id ∉ selected := fun inside =>
          apart.2.2 id inside id List.mem_cons_self rfl
        have approvals : ∀ other ∈ a.approvalDecisionIds, other ∉ selected → ∃ e,
            Recorded s other e ∧ e.decision = .approve ∧
              (e.actorDomainRole = role → other = id) := by
          intro other inside unselected
          rcases List.mem_append.mp (perm.symm.subset inside) with taken | pending
          · exact absurd taken unselected
          · rcases List.mem_cons.mp pending with rfl | later
            · exact ⟨d, recorded, kind, fun _ => rfl⟩
            · obtain ⟨p, listed, rfl⟩ := List.mem_map.mp later
              obtain ⟨role', mem', cites⟩ := exists_of_forall₂ rest listed
              refine ⟨p.2, cites.recorded, cites.kind, fun same => ?_⟩
              exact absurd (same.symm.trans cites.inRole ▸ mem') absent
        have found := findApproval_fits (r := r) mem fresh recorded inRole org actor approvals
        have tail := (ih nodup (List.nodup_cons.mpr ⟨fresh, distinct⟩)
          (List.cons_subset.mpr ⟨mem, cited⟩)).mpr
          ⟨chosen, List.perm_middle.symm.trans perm, rest, rfl⟩
        subst named
        simp only [collectApprovals, findRepresentative_mem valid listed, Query.eval_bind, found,
          ok_bind, boundToAgreement_iff.mpr bound, Bool.not_true, Bool.false_eq_true, if_false,
          tail, Query.eval_pure, List.map_cons]

end Choosing

/-! ## One-to-one correspondences between lists -/

section Matching

variable {α β γ : Type} {l : List α} {m : List β}

/-- Between lists without repetitions, a function is a one-to-one correspondence when it maps
the one to an arrangement of the other. -/
theorem bijOn_iff_perm {f : α → β} (left : l.Nodup) (right : m.Nodup) :
    Set.BijOn f {x | x ∈ l} {y | y ∈ m} ↔ (l.map f).Perm m := by
  constructor
  · rintro ⟨maps, inj, surj⟩
    rw [List.perm_ext_iff_of_nodup (left.map_on fun x inside y other => inj inside other) right]
    intro y
    rw [List.mem_map]
    exact ⟨fun ⟨x, inside, same⟩ => same ▸ maps inside, fun inside => surj inside⟩
  · intro perm
    refine ⟨fun x inside => perm.subset (List.mem_map_of_mem inside), ?_, fun y inside => ?_⟩
    · exact fun x inside y other => List.inj_on_of_nodup_map (perm.nodup_iff.mpr right) inside other
    · exact List.mem_map.mp (perm.symm.subset inside)

/-- A list without repetitions can be mapped to any list of its length. -/
theorem exists_map_eq [Nonempty β] (nodup : l.Nodup) (length : l.length = m.length) :
    ∃ f : α → β, l.map f = m := by
  classical
  induction l generalizing m with
  | nil => exact ⟨fun _ => Classical.arbitrary β, (List.length_eq_zero_iff.mp length.symm).symm⟩
  | cons x l ih =>
      cases m with
      | nil => simp at length
      | cons y m =>
          obtain ⟨absent, nodup⟩ := List.nodup_cons.mp nodup
          obtain ⟨f, rfl⟩ := ih nodup (by simpa using length)
          refine ⟨Function.update f x y, ?_⟩
          rw [List.map_cons, Function.update_self]
          congr 1
          apply List.map_congr_left
          intro z inside
          exact Function.update_of_ne (ne_of_mem_of_not_mem inside absent) _ _

/-- With partners given by a function, only the results are left to choose. -/
theorem forall₂_partner {R : α → β → γ → Prop} {f : α → β} {results : List γ} :
    (∃ chosen : List (β × γ), chosen.map Prod.fst = l.map f ∧
      List.Forall₂ (fun x p => R x p.1 p.2) l chosen ∧ chosen.map Prod.snd = results) ↔
    List.Forall₂ (fun x z => R x (f x) z) l results := by
  constructor
  · rintro ⟨chosen, same, related, rfl⟩
    induction related with
    | nil => exact .nil
    | cons first _ ih =>
        obtain ⟨here, rest⟩ := List.cons.inj same
        exact .cons (here ▸ first) (ih rest)
  · intro related
    induction related with
    | nil => exact ⟨[], rfl, .nil, rfl⟩
    | @cons x z _ _ first _ ih =>
        obtain ⟨chosen, same, rest, rfl⟩ := ih
        exact ⟨(f x, z) :: chosen, congrArg (f x :: ·) same, .cons first rest, rfl⟩

/-- Choosing a partner and a result for each element of a list is choosing a correspondence and
the list of the results. -/
theorem exists_matching [Nonempty β] {R : α → β → γ → Prop} {results : List γ} (left : l.Nodup)
    (right : m.Nodup) :
    (∃ chosen : List (β × γ), (chosen.map Prod.fst).Perm m ∧
      List.Forall₂ (fun x p => R x p.1 p.2) l chosen ∧ chosen.map Prod.snd = results) ↔
    ∃ f : α → β, Set.BijOn f {x | x ∈ l} {y | y ∈ m} ∧
      List.Forall₂ (fun x z => R x (f x) z) l results := by
  simp only [bijOn_iff_perm left right, ← forall₂_partner]
  constructor
  · rintro ⟨chosen, perm, related, results⟩
    obtain ⟨f, same⟩ := exists_map_eq (m := chosen.map Prod.fst) left
      (by rw [List.length_map, related.length_eq])
    exact ⟨f, same ▸ perm, chosen, same.symm, related, results⟩
  · rintro ⟨f, perm, chosen, same, related, results⟩
    exact ⟨chosen, same ▸ perm, related, results⟩

end Matching

/-! ## Failures -/

/-- The computation fails with a corrupt state alone. -/
def FailsCorrupt {α : Type} (x : Except Thrown α) : Prop :=
  ∀ e, x = .error e → isCorruptState e = true

theorem FailsCorrupt.corrupt {α : Type} (message : String) :
    FailsCorrupt (checked (corruptApprovalState message) : Except Thrown α) := by
  rintro _ ⟨⟩
  rfl

theorem FailsCorrupt.ok {α : Type} (x : α) : FailsCorrupt (.ok x) := nofun

theorem FailsCorrupt.bind {α β : Type} {x : Except Thrown α} {f : α → Except Thrown β}
    (first : FailsCorrupt x) (next : ∀ y, FailsCorrupt (f y)) : FailsCorrupt (x >>= f) := by
  cases x with
  | error e =>
      rintro _ ⟨⟩
      exact first e rfl
  | ok y => exact next y

theorem findApproval_fails {s : Store} {role : Id} {r : RoleRepresentative}
    {selected candidates : List Id} :
    FailsCorrupt ((findApproval role r selected candidates).eval s) := by
  induction candidates with
  | nil => exact .ok _
  | cons candidate rest ih =>
      rw [findApproval]
      split_ifs
      · exact ih
      · rw [Query.eval_bind]
        refine .bind (.ok _) fun stored => ?_
        cases stored with
        | none => exact .corrupt _
        | some value =>
            cases valid : validateDecision (some value) with
            | error e =>
                simp only [valid]
                exact .corrupt _
            | ok d =>
                simp only [valid]
                split_ifs
                · exact .corrupt _
                · exact .ok _
                · exact ih

theorem collectApprovals_fails {s : Store} {a : AgreementRecord} {policy : AgreementPolicy}
    {roles selected : List Id} : FailsCorrupt ((collectApprovals a policy roles selected).eval s) := by
  induction roles generalizing selected with
  | nil =>
      rw [collectApprovals]
      split_ifs
      · exact .corrupt _
      · exact .ok _
  | cons role roles ih =>
      rw [collectApprovals]
      cases findRepresentative policy role with
      | none => exact .corrupt _
      | some r =>
          rw [Query.eval_bind]
          refine .bind findApproval_fails fun found => ?_
          cases found with
          | none => exact .corrupt _
          | some p =>
              dsimp only
              split_ifs
              · exact .corrupt _
              · rw [Query.eval_bind]
                exact .bind ih fun _ => .ok _

/-! ## Exact manifests -/

/-- The policy of the agreement is in the config, with its slot and epochs, and the cited
decisions correspond to the required roles one to one. -/
structure ExactManifest (s : Store) (config : DomainConfig) (a : AgreementRecord)
    (policy : AgreementPolicy) (assigned : Id → Id) : Prop where
  listed : policy ∈ config.policies
  id : policy.policyId = a.policyId
  version : policy.policyVersion = a.policyVersion
  slot : policy.toSlot = a.toSlot
  membership : policy.membershipEpoch = a.membershipEpoch
  roleBinding : policy.roleBindingVersion = a.roleBindingVersion
  matching : Set.BijOn assigned {role | role ∈ policy.requiredDomainRoles}
    {id | id ∈ a.approvalDecisionIds}
  cited : ∀ role ∈ policy.requiredDomainRoles, ∃ d, Cites s policy a role (assigned role) d

section Exact

variable {s : Store} {config : DomainConfig} {configValue : Value} {a : AgreementRecord}

theorem readManifest_eval (configured : present (s keyFor.config) = some configValue)
    (validConfig : validateConfig (some configValue) = .ok config) (valid : a.Valid) :
    (readManifest a).eval s = .ok (a, config) := by
  simp [readManifest, validateAgreement_json valid, configured, validConfig]
  rfl

/-- With a valid config, a valid agreement is checked against its policy. -/
theorem validateAgreementApprovals_eval (configured : present (s keyFor.config) = some configValue)
    (validConfig : validateConfig (some configValue) = .ok config) (valid : a.Valid)
    (ds : List ApprovalDecision) :
    (validateAgreementApprovals a).eval s = .ok ds ↔
      ∃ policy ∈ config.policies, policy.policyId = a.policyId ∧
        policy.policyVersion = a.policyVersion ∧ policy.toSlot = a.toSlot ∧
        policy.membershipEpoch = a.membershipEpoch ∧
        policy.roleBindingVersion = a.roleBindingVersion ∧
        a.approvalDecisionIds.length = policy.requiredDomainRoles.length ∧
        (collectApprovals a policy policy.requiredDomainRoles []).eval s = .ok ds := by
  have manifest := readManifest_eval configured validConfig valid
  have fits := validateConfig_valid _ _ validConfig
  simp only [validateAgreementApprovals, Query.eval_bind, manifest, ok_bind]
  constructor
  · intro run
    split_ifs at run with stale
    · cases run
    · cases found : findPolicy config a.policyId a.policyVersion with
      | none => simp [found, corruptApprovalState, fail] at run
      | some policy =>
          simp only [found] at run
          split_ifs at run with elsewhere short
          · cases run
          · cases run
          · obtain ⟨listed, id, version⟩ := findPolicy_some found
            have ok := fits.policies policy listed
            obtain ⟨membership, roleBinding⟩ := not_or.mp stale
            exact ⟨policy, listed, id, version, by simpa using elsewhere,
              ok.membership.trans (not_not.mp membership).symm,
              ok.binding.trans (not_not.mp roleBinding).symm, not_not.mp short, run⟩
  · rintro ⟨policy, listed, id, version, slot, membership, roleBinding, length, run⟩
    have ok := fits.policies policy listed
    rw [← membership, ← roleBinding, ok.membership, ok.binding, if_neg (by simp), ← id, ← version,
      findPolicy_mem fits listed]
    simp only [sameSlot_iff.mpr slot, Bool.not_true, Bool.false_eq_true, if_false, length, ne_eq,
      not_true_eq_false, run]

/-- The decisions come back in the order of the roles. -/
theorem validateAgreementApprovals_ok (configured : present (s keyFor.config) = some configValue)
    (validConfig : validateConfig (some configValue) = .ok config) (valid : a.Valid)
    {ds : List ApprovalDecision} :
    (validateAgreementApprovals a).eval s = .ok ds ↔
      ∃ policy assigned, ExactManifest s config a policy assigned ∧
        List.Forall₂ (fun role d => Cites s policy a role (assigned role) d)
          policy.requiredDomainRoles ds := by
  have fits := validateConfig_valid _ _ validConfig
  have : Nonempty Id := ⟨a.documentId⟩
  rw [validateAgreementApprovals_eval configured validConfig valid]
  constructor
  · rintro ⟨policy, listed, id, version, slot, membership, roleBinding, -, run⟩
    have ok := (fits.policies policy listed).valid
    rw [collectApprovals_ok ok valid.nodup ok.roles_nodup List.nodup_nil (List.nil_subset _)] at run
    obtain ⟨assigned, matching, cites⟩ := (exists_matching ok.roles_nodup valid.nodup).mp run
    refine ⟨policy, assigned, ⟨listed, id, version, slot, membership, roleBinding, matching,
      fun role mem => ?_⟩, cites⟩
    obtain ⟨d, -, cited⟩ := exists_of_forall₂ cites.flip mem
    exact ⟨d, cited⟩
  · rintro ⟨policy, assigned, h, cites⟩
    have ok := (fits.policies policy h.listed).valid
    refine ⟨policy, h.listed, h.id, h.version, h.slot, h.membership, h.roleBinding, ?_, ?_⟩
    · simpa using ((bijOn_iff_perm ok.roles_nodup valid.nodup).mp h.matching).length_eq.symm
    · rw [collectApprovals_ok ok valid.nodup ok.roles_nodup List.nodup_nil (List.nil_subset _)]
      exact (exists_matching ok.roles_nodup valid.nodup).mpr ⟨assigned, h.matching, cites⟩

/-- A valid agreement is checked to the end, or found corrupt. -/
theorem validateAgreementApprovals_fails
    (configured : present (s keyFor.config) = some configValue)
    (validConfig : validateConfig (some configValue) = .ok config) (valid : a.Valid) :
    FailsCorrupt ((validateAgreementApprovals a).eval s) := by
  have manifest := readManifest_eval configured validConfig valid
  rw [validateAgreementApprovals, Query.eval_bind, manifest, ok_bind]
  dsimp only
  split_ifs
  · exact .corrupt _
  · cases findPolicy config a.policyId a.policyVersion with
    | none => exact .corrupt _
    | some policy =>
        dsimp only
        split_ifs
        · exact .corrupt _
        · exact .corrupt _
        · exact collectApprovals_fails

/-- What a manifest cites does not depend on the order of the ids. -/
theorem ExactManifest.reorder {policy : AgreementPolicy} {assigned : Id → Id} {ids others : List Id}
    (perm : ids.Perm others)
    (h : ExactManifest s config { a with approvalDecisionIds := ids } policy assigned) :
    ExactManifest s config { a with approvalDecisionIds := others } policy assigned where
  listed := h.listed
  id := h.id
  version := h.version
  slot := h.slot
  membership := h.membership
  roleBinding := h.roleBinding
  matching := by
    have same : {id | id ∈ others} = {id | id ∈ ids} := Set.ext fun _ => perm.symm.mem_iff
    rw [same]
    exact h.matching
  cited role mem := by
    obtain ⟨d, cites⟩ := h.cited role mem
    exact ⟨d, cites.recorded, cites.kind, cites.inRole, cites.representative, cites.bound⟩

end Exact

end Knowledger
