import Knowledger.Connectors.ConfluenceOAuth

/-!
# A refresh token is used once

The swap that marks a version succeeds once, since its version is never stored again, and only
the call that made it sends the token of that version.
-/

namespace Knowledger.OAuth

open Js Storage

variable {grantId : String} {options : Nat → Options} {s t : State}

/-! ## The statement -/

/-- The value is a ready grant of the version with the refresh token. -/
def Holds (grantId client : String) (value : Value) (version : Int) (refreshToken : String) : Prop :=
  ∃ g a e, grant value grantId client = some g ∧ g.version = version ∧
    g.state = .ready a refreshToken e

/-- No two versions of the grant hold one refresh token. -/
def Rotating (grantId : String) (history : List Value) : Prop :=
  ∀ v ∈ history, ∀ w ∈ history, ∀ client client' m n token,
    Holds grantId client v m token → Holds grantId client' w n token → m = n

/-- What was handed out is the token of the ready grant that was loaded last, and has not
expired. -/
def Returned.Current (grantId : String) (options : Nat → Options) (r : Returned) : Prop :=
  ∃ value g token e, r.lastLoad = some value ∧
    grant value grantId (options r.provider).clientId = some g ∧
    g.state = .ready r.accessToken token e ∧ r.now < e

/-- At most one request carries the token of a version, every swap raises the version, and a token
that is handed out is current. -/
structure State.Safe (grantId : String) (options : Nat → Options) (s : State) : Prop where
  once : s.requests.Pairwise fun a b => a.version ≠ b.version
  carried : ∀ r ∈ s.requests, ∃ v ∈ s.history, Holds grantId r.clientId v r.version r.refreshToken
  increasing : ∀ swap ∈ s.swaps, ∃ a b, swap = (some a, some b) ∧ a < b
  returned : ∀ r ∈ s.returned, r.Current grantId options

/-- A call whose swap marked the version may still save a grant. -/
def Call.mayRefresh (call : Call) (version : Int) : Prop :=
  match call.stage with
  | .claimed c true | .permitRead (.owned c) | .reading (.owned c) | .read (.owned c) _
  | .requested c _ | .responded c _ => c.version = version ∧ call.aborted = false
  | .saving c _ => c.version = version
  | _ => False

/-- The grant is being refreshed, and no call or swap under way can finish that: what became of its
token is not known. -/
def State.Unknown (grantId : String) (s : State) (version : Int) : Prop :=
  (∃ client g attempt, grant s.store grantId client = some g ∧ g.version = version ∧
    g.state = .refreshing attempt) ∧
  (∀ f call, s.calls f = some call → ¬ call.mayRefresh version) ∧
  ∀ swap ∈ s.stray, swap.1 ≠ version

def Event.isReconnect : Event → Bool
  | .reconnect _ => true
  | _ => false

/-! ## Grants -/

section

variable {value : Value} {client : String} {g h : ConfluenceGrant}

theorem grantVersion_some {o : Option Value} {n : Int} (found : grantVersion o = some n) :
    o = some (.num (.int n)) := by
  unfold grantVersion at found
  split at found
  · obtain ⟨-, rfl⟩ := (Option.ite_none_right_eq_some.mp found).imp_right Option.some.inj
    rfl
  · cases found

/-- What a grant has checked. -/
theorem grant_some (found : grant value grantId client = some g) :
    ∃ fs : Fields, value = .obj fs ∧ g.json = value ∧ fs.get "version" = some (.num (.int g.version)) ∧
      isString (fs.get "client_id") client = true ∧
      match g.state with
      | .ready access refresh expires => isString (fs.get "state") "ready" = true ∧
          token (fs.get "access_token") = some access ∧
          token (fs.get "refresh_token") = some refresh ∧ time (fs.get "expires_at") = some expires
      | .refreshing attempt => isString (fs.get "state") "ready" = false ∧
          fs.get "attempt_id" = some attempt := by
  unfold grant at found
  cases value with
  | obj fs =>
      refine ⟨fs, rfl, ?_⟩
      simp only [isRecord, Option.bind_eq_bind, Option.bind_some] at found
      obtain ⟨checks, found⟩ := Option.ite_none_right_eq_some.mp found
      simp only [Bool.and_eq_true] at checks
      obtain ⟨version, named, found⟩ := Option.bind_eq_some_iff.mp found
      have versioned := grantVersion_some named
      by_cases ready : isString (Fields.get fs "state") "ready" = true
      · rw [if_pos ready] at found
        obtain ⟨access, accessed, found⟩ := Option.bind_eq_some_iff.mp found
        obtain ⟨refresh, refreshed, found⟩ := Option.bind_eq_some_iff.mp found
        obtain ⟨expires, timed, found⟩ := Option.bind_eq_some_iff.mp found
        obtain ⟨-, rfl⟩ := (Option.ite_none_right_eq_some.mp found).imp_right Option.some.inj
        exact ⟨rfl, versioned, checks.2, ready, accessed, refreshed, timed⟩
      · rw [if_neg ready] at found
        obtain ⟨attempt, attempted, found⟩ := Option.bind_eq_some_iff.mp found
        obtain ⟨_, -, found⟩ := Option.bind_eq_some_iff.mp found
        obtain ⟨-, rfl⟩ := (Option.ite_none_right_eq_some.mp found).imp_right Option.some.inj
        exact ⟨rfl, versioned, checks.2, Bool.eq_false_iff.mpr ready, attempted⟩
  | null | bool | num | str | arr => cases found

theorem grant_json (found : grant value grantId client = some g) : g.json = value := by
  obtain ⟨_, -, json, -⟩ := grant_some found
  exact json

theorem versionOf_grant (found : grant value grantId client = some g) :
    versionOf value = some g.version := by
  obtain ⟨fs, rfl, -, version, -⟩ := grant_some found
  unfold versionOf
  rw [isRecord, Option.bind_some, version]

/-- A value holds a ready grant or one that is being refreshed, whoever loads it. -/
theorem grant_state_ne {client' : String} (found : grant value grantId client = some g)
    (other : grant value grantId client' = some h) {a b : String} {e : Int} {attempt : Value}
    (ready : g.state = .ready a b e) : h.state ≠ .refreshing attempt := by
  intro refreshing
  obtain ⟨fs, same, -, -, -, state⟩ := grant_some found
  obtain ⟨fs', same', -, -, -, state'⟩ := grant_some other
  obtain rfl := Value.obj.inj (same.symm.trans same')
  rw [ready] at state
  rw [refreshing] at state'
  rw [state.1] at state'
  cases state'.1

theorem token_normalize (o : Option Value) : token (o.map Value.normalize) = token o := by
  cases o with
  | none => rfl
  | some v => cases v <;> simp [token]

theorem time_normalize (o : Option Value) : time (o.map Value.normalize) = time o := by
  cases o with
  | none => rfl
  | some v => cases v <;> simp [time]

/-- Grants that print alike hold the same tokens. -/
theorem grant_same {value' : Value} (found : grant value grantId client = some g)
    (other : grant value' grantId client = some h) (same : value.normalize = value'.normalize)
    {a b : String} {e : Int} (ready : h.state = .ready a b e) : g.state = .ready a b e := by
  obtain ⟨fs, rfl, -, -, -, state⟩ := grant_some found
  obtain ⟨fs', rfl, -, -, -, state'⟩ := grant_some other
  rw [Value.normalize_obj, Value.normalize_obj] at same
  have gets : ∀ name, (fs.get name).map Value.normalize = (fs'.get name).map Value.normalize := by
    intro name
    rw [← Fields.get_normalize, ← Fields.get_normalize, Value.obj.inj same]
  rw [ready] at state'
  obtain ⟨isReady, access, refresh, expires⟩ := state'
  rw [← isString_normalize, ← gets, isString_normalize] at isReady
  rw [← token_normalize, ← gets, token_normalize] at access refresh
  rw [← time_normalize, ← gets, time_normalize] at expires
  cases is : g.state with
  | ready a' b' e' =>
      rw [is] at state
      obtain ⟨-, access', refresh', expires'⟩ := state
      obtain rfl := Option.some.inj (access'.symm.trans access)
      obtain rfl := Option.some.inj (refresh'.symm.trans refresh)
      obtain rfl := Option.some.inj (expires'.symm.trans expires)
      rfl
  | refreshing attempt =>
      rw [is] at state
      rw [state.1] at isReady
      cases isReady

theorem sameGrant_true (same : sameGrant g h = .ok true) : g.json.normalize = h.json.normalize := by
  unfold sameGrant at same
  split at same
  · next left right first second =>
      have equal := eq_of_beq (Except.ok.inj same)
      rw [equal] at first
      exact canonicalize_inj first second
  · cases same

end

theorem versionOf_marked (o : Options) (c : Claim) :
    versionOf (c.marked grantId o) = some c.version := by
  simp [versionOf, Claim.marked, record, isRecord, jsonInt]

theorem nextGrant_version {o : Options} {c : Claim} {started : Int} {value : Value}
    {next : ConfluenceGrant} (made : nextGrant grantId o c started value = .ok next) :
    versionOf next.json = some (c.version + 1) := by
  unfold nextGrant at made
  dsimp only at made
  split at made
  · split at made
    · split at made
      · next found =>
          obtain rfl := Except.ok.inj made
          rw [grant_json found]
          simp [versionOf, record, isRecord, jsonInt]
      · cases made
    · cases made
  · cases made

/-! ## The invariant -/

/-- The claim of a call whose swap took effect and that has not sent its request. -/
def Stage.owns : Stage → Option Claim
  | .claimed c true | .permitRead (.owned c) | .reading (.owned c) | .read (.owned c) _ => some c
  | _ => none

/-- The ready grant of the claim was stored. -/
def Claim.Based (grantId client : String) (history : List Value) (c : Claim) : Prop :=
  ∃ v ∈ history, Holds grantId client v c.current.version c.refreshToken

/-- What the stage of a call knows. -/
def Stage.Knows (grantId client : String) (history : List Value) (lastLoad : Option Value) :
    Stage → Prop
  | .permitRead (.latest g) | .reading (.latest g) => grant g.json grantId client = some g
  | .read (.latest g) v => lastLoad = some v ∧ grant g.json grantId client = some g
  | .permitRefresh g token | .secret g token | .permitClaim g token _ =>
      ∃ v ∈ history, Holds grantId client v g.version token
  | .claiming c | .claimed c _ | .permitRead (.owned c) | .reading (.owned c) =>
      c.Based grantId client history
  | .read (.owned c) v => lastLoad = some v ∧ c.Based grantId client history
  | .read _ v => lastLoad = some v ∧ v ∈ history
  | .saving c next => versionOf next.json = some (c.version + 1)
  | _ => True

/-- The version was stored, and is not the store's any more. -/
def State.Used (s : State) (version : Int) : Prop := some version ∈ s.past.map versionOf

structure State.Sound (grantId : String) (options : Nat → Options) (s : State) : Prop where
  nodup : (s.history.filterMap versionOf).Nodup
  knows : ∀ f call, s.calls f = some call →
    call.stage.Knows grantId (options call.provider).clientId s.history call.lastLoad
  owned : ∀ f call c, s.calls f = some call → call.stage.owns = some c → s.Used c.current.version
  unique : ∀ f g call call' c c', s.calls f = some call → s.calls g = some call' →
    call.stage.owns = some c → call'.stage.owns = some c' →
    c.current.version = c'.current.version → f = g
  apart : ∀ r ∈ s.requests, ∀ f call c, s.calls f = some call → call.stage.owns = some c →
    c.current.version ≠ r.version
  used : ∀ r ∈ s.requests, s.Used r.version
  stray : ∀ swap ∈ s.stray, versionOf swap.2 = some (swap.1 + 1)
  safe : s.Safe grantId options

theorem State.Sound.new (store : Value) : (State.new store).Sound grantId options where
  nodup := by
    unfold State.new State.history
    cases h : versionOf store <;> simp [h]
  knows f call is := by cases is
  owned f call c is := by cases is
  unique f g call call' c c' is := by cases is
  apart r mem := by cases mem
  used r mem := by cases mem
  stray swap mem := by cases mem
  safe :=
    { once := List.Pairwise.nil
      carried := fun r mem => by cases mem
      increasing := fun swap mem => by cases mem
      returned := fun r mem => by cases mem }

theorem Claim.Based.mono {client : String} {c : Claim} {history history' : List Value}
    (more : ∀ v ∈ history, v ∈ history') (based : c.Based grantId client history) :
    c.Based grantId client history' := by
  obtain ⟨v, mem, holds⟩ := based
  exact ⟨v, more v mem, holds⟩

/-- What a call knows stays known. -/
theorem Stage.Knows.mono {client : String} {stage : Stage} {lastLoad : Option Value}
    {history history' : List Value} (more : ∀ v ∈ history, v ∈ history')
    (knows : stage.Knows grantId client history lastLoad) :
    stage.Knows grantId client history' lastLoad := by
  unfold Stage.Knows at knows ⊢
  split at knows
  case h_4 | h_5 | h_6 =>
    obtain ⟨v, mem, holds⟩ := knows
    exact ⟨v, more v mem, holds⟩
  case h_11 => exact knows.imp_right (.mono more)
  case h_12 => exact knows.imp_right (more _)
  all_goals first | exact knows | exact .mono more knows

/-! ## Moves of a call -/

@[simp] theorem State.set_self (s : State) (f : Nat) (call : Call) :
    (s.set f call).calls f = some call := by
  simp [State.set]

theorem State.set_other {f g : Nat} (call : Call) (other : g ≠ f) :
    (s.set f call).calls g = s.calls g := by
  simp [State.set, Function.update_of_ne other]

/-- A call that comes to own nothing new moves on. -/
theorem State.Sound.move {f : Nat} {call : Call} (sound : s.Sound grantId options)
    (knows : call.stage.Knows grantId (options call.provider).clientId s.history call.lastLoad)
    (owns : ∀ c, call.stage.owns = some c →
      ∃ before, s.calls f = some before ∧ before.stage.owns = some c) :
    (s.set f call).Sound grantId options := by
  have before : ∀ g call' c, (s.set f call).calls g = some call' → call'.stage.owns = some c →
      ∃ old, s.calls g = some old ∧ old.stage.owns = some c := by
    intro g call' c at_ holds
    by_cases same : g = f
    · subst same
      rw [State.set_self] at at_
      obtain rfl := Option.some.inj at_
      exact owns c holds
    · rw [State.set_other call same] at at_
      exact ⟨call', at_, holds⟩
  exact
    { nodup := sound.nodup
      knows := by
        intro g call' at_
        by_cases same : g = f
        · subst same
          rw [State.set_self] at at_
          obtain rfl := Option.some.inj at_
          exact knows
        · rw [State.set_other call same] at at_
          exact sound.knows g call' at_
      owned := by
        intro g call' c at_ holds
        obtain ⟨old, was, held⟩ := before g call' c at_ holds
        exact sound.owned g old c was held
      unique := by
        intro g h call₁ call₂ c c' first second holds holds' same
        obtain ⟨old, was, held⟩ := before g call₁ c first holds
        obtain ⟨old', was', held'⟩ := before h call₂ c' second holds'
        exact sound.unique g h old old' c c' was was' held held' same
      apart := by
        intro r mem g call' c at_ holds
        obtain ⟨old, was, held⟩ := before g call' c at_ holds
        exact sound.apart r mem g old c was held
      used := sound.used
      stray := sound.stray
      safe := ⟨sound.safe.once, sound.safe.carried, sound.safe.increasing, sound.safe.returned⟩ }

/-! ## The store -/

theorem State.put_some {value : Value} (stored : s.put value = some t) :
    t = { s with store := value, past := s.store :: s.past } ∧
      ∀ n, versionOf value = some n → some n ∉ s.history.map versionOf := by
  obtain ⟨fresh, rfl⟩ := (Option.ite_none_left_eq_some.mp stored).imp_right Option.some.inj
  refine ⟨rfl, fun n is used => fresh ⟨by rw [is]; rfl, by rw [is]; exact used⟩⟩

/-- The store takes a value of a version that was never used. -/
theorem State.Sound.put {value : Value} (sound : s.Sound grantId options)
    (stored : s.put value = some t) : t.Sound grantId options := by
  obtain ⟨rfl, fresh⟩ := State.put_some stored
  have more : ∀ v ∈ s.history, v ∈ value :: s.history := fun v => List.mem_cons_of_mem value
  have used : ∀ n, s.Used n → some n ∈ (s.store :: s.past).map versionOf :=
    fun n => List.mem_cons_of_mem _
  exact
    { nodup := by
        change ((value :: s.history).filterMap versionOf).Nodup
        cases is : versionOf value with
        | none => rw [List.filterMap_cons_none is]; exact sound.nodup
        | some n =>
            rw [List.filterMap_cons_some is, List.nodup_cons]
            refine ⟨fun mem => fresh n is ?_, sound.nodup⟩
            obtain ⟨v, inside, same⟩ := List.mem_filterMap.mp mem
            exact List.mem_map.mpr ⟨v, inside, same⟩
      knows := fun f call at_ => (sound.knows f call at_).mono more
      owned := fun f call c at_ holds => used _ (sound.owned f call c at_ holds)
      unique := sound.unique
      apart := sound.apart
      used := fun r mem => used _ (sound.used r mem)
      stray := sound.stray
      safe := ⟨sound.safe.once, fun r mem =>
        (sound.safe.carried r mem).imp fun v => And.imp_left (more v), sound.safe.increasing,
        sound.safe.returned⟩ }

/-- A version that was used before is not the store's. -/
theorem State.Sound.not_used {version : Int} (sound : s.Sound grantId options)
    (is : versionOf s.store = some version) : ¬ s.Used version := by
  intro used
  have nodup := sound.nodup
  unfold State.history at nodup
  rw [List.filterMap_cons_some is, List.nodup_cons] at nodup
  obtain ⟨v, inside, same⟩ := List.mem_map.mp used
  exact nodup.1 (List.mem_filterMap.mpr ⟨v, inside, same⟩)

/-- The value of the store is the only one of its version. -/
theorem State.Sound.store_eq {version : Int} {v : Value} (sound : s.Sound grantId options)
    (is : versionOf s.store = some version) (mem : v ∈ s.history)
    (same : versionOf v = some version) : v = s.store := by
  rcases List.mem_cons.mp mem with rfl | inside
  · rfl
  · exact absurd (List.mem_map.mpr ⟨v, inside, same⟩) (sound.not_used is)

theorem State.swap_cases {expected : Int} {next : Value} {swapped : Bool}
    (taken : s.swap expected next = some (swapped, t)) :
    (swapped = false ∧ t = s) ∨ (swapped = true ∧ versionOf s.store = some expected ∧
      ∃ u, s.put next = some u ∧
        t = { u with swaps := (versionOf s.store, versionOf next) :: u.swaps }) := by
  unfold State.swap at taken
  split at taken
  · next is =>
      obtain ⟨u, stored, same⟩ := Option.map_eq_some_iff.mp taken
      obtain ⟨rfl, rfl⟩ := Prod.mk.inj same
      exact Or.inr ⟨rfl, is, u, stored, rfl⟩
  · obtain ⟨rfl, rfl⟩ := Prod.mk.inj (Option.some.inj taken)
    exact Or.inl ⟨rfl, rfl⟩

/-- A swap that takes effect keeps the invariant: the version it replaces is then used. -/
theorem State.Sound.swapped {expected : Int} {next : Value} (sound : s.Sound grantId options)
    (is : versionOf s.store = some expected) (raised : versionOf next = some (expected + 1))
    (stored : s.put next = some t) :
    ({ t with swaps := (versionOf s.store, versionOf next) :: t.swaps } : State).Sound grantId
      options ∧ t.Used expected := by
  have after := sound.put stored
  obtain ⟨rfl, -⟩ := State.put_some stored
  refine ⟨{ after with safe := { after.safe with increasing := ?_ } },
    List.mem_cons.mpr (Or.inl is.symm)⟩
  intro swap mem
  rcases List.mem_cons.mp mem with rfl | mem
  · exact ⟨expected, expected + 1, by rw [is, raised], by omega⟩
  · exact sound.safe.increasing swap mem

/-- A call becomes the owner of a version that no other call or request had. -/
theorem State.Sound.own {f : Nat} {call : Call} {c : Claim} (sound : s.Sound grantId options)
    (knows : call.stage.Knows grantId (options call.provider).clientId s.history call.lastLoad)
    (owns : call.stage.owns = some c) (used : s.Used c.current.version)
    (alone : ∀ g call' c', s.calls g = some call' → call'.stage.owns = some c' →
      c'.current.version ≠ c.current.version)
    (unsent : ∀ r ∈ s.requests, c.current.version ≠ r.version) :
    (s.set f call).Sound grantId options := by
  have before : ∀ g call' c', (s.set f call).calls g = some call' → call'.stage.owns = some c' →
      g = f ∧ c' = c ∨ s.calls g = some call' ∧ c'.current.version ≠ c.current.version := by
    intro g call' c' at_ holds
    by_cases same : g = f
    · subst same
      rw [State.set_self] at at_
      obtain rfl := Option.some.inj at_
      exact Or.inl ⟨rfl, (Option.some.inj (owns.symm.trans holds)).symm⟩
    · rw [State.set_other call same] at at_
      exact Or.inr ⟨at_, alone g call' c' at_ holds⟩
  exact
    { nodup := sound.nodup
      knows := by
        intro g call' at_
        by_cases same : g = f
        · subst same
          rw [State.set_self] at at_
          obtain rfl := Option.some.inj at_
          exact knows
        · rw [State.set_other call same] at at_
          exact sound.knows g call' at_
      owned := by
        intro g call' c' at_ holds
        rcases before g call' c' at_ holds with ⟨-, rfl⟩ | ⟨was, -⟩
        · exact used
        · exact sound.owned g call' c' was holds
      unique := by
        intro g h call₁ call₂ c₁ c₂ first second holds holds' same
        rcases before g call₁ c₁ first holds with ⟨rfl, rfl⟩ | ⟨was, other⟩
        · rcases before h call₂ c₂ second holds' with ⟨rfl, -⟩ | ⟨-, other⟩
          · rfl
          · exact absurd same.symm other
        · rcases before h call₂ c₂ second holds' with ⟨rfl, rfl⟩ | ⟨was', -⟩
          · exact absurd same other
          · exact sound.unique g h call₁ call₂ c₁ c₂ was was' holds holds' same
      apart := by
        intro r mem g call' c' at_ holds
        rcases before g call' c' at_ holds with ⟨-, rfl⟩ | ⟨was, -⟩
        · exact unsent r mem
        · exact sound.apart r mem g call' c' was holds
      used := sound.used
      stray := sound.stray
      safe := ⟨sound.safe.once, sound.safe.carried, sound.safe.increasing, sound.safe.returned⟩ }

/-- The store does what a call asked of it. -/
theorem State.Sound.land {f : Nat} {call : Call} (sound : s.Sound grantId options)
    (at_ : s.calls f = some call)
    (taken : s.land grantId (options call.provider) f call = some t) : t.Sound grantId options := by
  have knows := sound.knows f call at_
  unfold State.land at taken
  split at taken
  · next r is =>
      obtain rfl := Option.some.inj taken
      rw [is] at knows
      refine sound.move ?_ fun c owns => ⟨call, at_, ?_⟩
      · cases r with
        | latest g => exact ⟨rfl, knows⟩
        | owned c => exact ⟨rfl, knows⟩
        | first | saved => exact ⟨rfl, List.mem_cons_self⟩
      · cases r with
        | owned c => rw [is]; exact owns
        | first | latest | saved => cases owns
  · next c is =>
      obtain ⟨⟨swapped, u⟩, swap, rfl⟩ := Option.map_eq_some_iff.mp taken
      rw [is] at knows
      rcases State.swap_cases swap with ⟨rfl, rfl⟩ | ⟨rfl, was, v, stored, rfl⟩
      · exact sound.move knows fun c owns => by cases owns
      · obtain ⟨after, used⟩ := sound.swapped was (versionOf_marked _ c) stored
        obtain ⟨rfl, -⟩ := State.put_some stored
        have free := sound.not_used was
        refine after.own ?_ rfl used (fun g call' c' was' owns same => ?_) fun r mem same => ?_
        · exact Claim.Based.mono (fun v => List.mem_cons_of_mem _) knows
        · exact free (same ▸ sound.owned g call' c' was' owns)
        · exact free (same ▸ sound.used r mem)
  · next c next is =>
      obtain ⟨⟨swapped, u⟩, swap, rfl⟩ := Option.map_eq_some_iff.mp taken
      rw [is] at knows
      rcases State.swap_cases swap with ⟨rfl, rfl⟩ | ⟨rfl, was, v, stored, rfl⟩
      · exact sound.move trivial fun c owns => by cases owns
      · exact (sound.swapped was knows stored).1.move trivial fun c owns => by cases owns
  · cases taken

/-! ## What follows an await -/

/-- The stages a call reaches without an error. -/
inductive Follows (grantId : String) (o : Options) (m : Moment) : Stage → Stage → Prop
  | allowed (r : Reading) : Follows grantId o m (.permitRead r) (.reading r)
  | first {value : Value} {g : ConfluenceGrant} {a b : String} {e : Int}
      (found : grant value grantId o.clientId = some g) (ready : g.state = .ready a b e) :
      Follows grantId o m (.read .first value) (.permitRead (.latest g))
  | expired {value : Value} {g : ConfluenceGrant} {a b : String} {e : Int}
      (found : grant value grantId o.clientId = some g) (ready : g.state = .ready a b e) :
      Follows grantId o m (.read .first value) (.permitRefresh g b)
  | latest {value : Value} {g current : ConfluenceGrant} {a b : String} {e : Int}
      (found : grant value grantId o.clientId = some g) (same : sameGrant g current = .ok true)
      (ready : current.state = .ready a b e) (live : m.now < e) :
      Follows grantId o m (.read (.latest current) value) (.over (.ok a))
  | owned {value : Value} (c : Claim) :
      Follows grantId o m (.read (.owned c) value) (.requested c m.now)
  | saved {value : Value} {g next : ConfluenceGrant} {a b : String} {e : Int}
      (found : grant value grantId o.clientId = some g) (ready : g.state = .ready a b e)
      (live : m.now < e) : Follows grantId o m (.read (.saved next) value) (.over (.ok a))
  | refresh (g : ConfluenceGrant) (token : String) :
      Follows grantId o m (.permitRefresh g token) (.secret g token)
  | secret (g : ConfluenceGrant) (token secret : String) :
      Follows grantId o m (.secret g token) (.permitClaim g token secret)
  | claim (g : ConfluenceGrant) (token secret uuid : String) (now : Int) :
      Follows grantId o m (.permitClaim g token secret) (.claiming ⟨g, token, secret, uuid, now⟩)
  | claimed (c : Claim) : Follows grantId o m (.claimed c true) (.permitRead (.owned c))
  | response (c : Claim) (started : Int) :
      Follows grantId o m (.requested c started) (.responded c started)
  | body (c : Claim) (started : Int) {value : Value} {next : ConfluenceGrant}
      (made : nextGrant grantId o c started value = .ok next) :
      Follows grantId o m (.responded c started) (.saving c next)
  | stored (next : ConfluenceGrant) :
      Follows grantId o m (.saved next true) (.permitRead (.saved next))

theorem loaded_ok {o : Options} {m : Moment} {r : Reading} {g : ConfluenceGrant} {value : Value}
    {next : Stage} (found : grant value grantId o.clientId = some g)
    (ok : loaded o m r g = .ok next) : Follows grantId o m (.read r value) next := by
  unfold loaded at ok
  split at ok
  · split at ok
    · cases ok
    · next ready =>
        split_ifs at ok
        · obtain rfl := Except.ok.inj ok
          exact .first found ready
        · obtain rfl := Except.ok.inj ok
          exact .expired found ready
  · split_ifs at ok
    obtain ⟨same, equal, ok⟩ := bind_ok.mp ok
    split at ok
    · next ready =>
        split_ifs at ok with checks
        obtain rfl := Except.ok.inj ok
        obtain ⟨rfl, live⟩ := checks
        exact .latest found equal ready live
    · cases ok
  · split at ok
    · split_ifs at ok
      obtain rfl := Except.ok.inj ok
      exact .owned _
    · cases ok
  · split at ok
    · next ready =>
        obtain ⟨same, -, ok⟩ := bind_ok.mp ok
        split_ifs at ok with checks
        obtain rfl := Except.ok.inj ok
        exact .saved found ready checks.2
    · cases ok

theorem ite_ok {α : Type} {c : Prop} [Decidable c] {a b : α} {e : String}
    (ok : some (if c then Except.ok a else Except.error e) = some (Except.ok b)) : c ∧ a = b := by
  split_ifs at ok with holds
  · exact ⟨holds, Except.ok.inj (Option.some.inj ok)⟩
  · cases Option.some.inj ok

theorem proceed_ok {o : Options} {m : Moment} {stage next : Stage} {settled : Settled}
    (ok : proceed grantId o m stage settled = some (.ok next)) :
    Follows grantId o m stage next := by
  unfold proceed at ok
  split at ok
  case h_1 r answer =>
    obtain ⟨-, rfl⟩ := ite_ok ok
    exact .allowed r
  case h_2 r value =>
    split at ok
    · next found => exact loaded_ok found (Option.some.inj ok)
    · cases ok
  case h_3 g token answer =>
    obtain ⟨-, rfl⟩ := ite_ok ok
    exact .refresh g token
  case h_4 g token value =>
    split at ok
    · cases ok
      exact .secret g token _
    · cases ok
  case h_5 g token secret answer =>
    obtain ⟨-, rfl⟩ := ite_ok ok
    exact .claim g token secret _ _
  case h_6 c swapped =>
    obtain ⟨rfl, rfl⟩ := ite_ok ok
    exact .claimed c
  case h_7 c started isOk =>
    obtain ⟨-, rfl⟩ := ite_ok ok
    exact .response c started
  case h_8 c started value =>
    obtain ⟨next, made, same⟩ := map_ok.mp (Option.some.inj ok)
    subst same
    exact .body c started made
  case h_9 next swapped =>
    obtain ⟨rfl, rfl⟩ := ite_ok ok
    exact .stored next
  case h_10 => cases ok

/-- A call fails, or it was not cancelled and goes on. -/
theorem resume_cases {o : Options} {cancelled : Bool} {m : Moment} {stage next : Stage}
    {settled : Settled} (taken : resume grantId o cancelled m stage settled = some next) :
    (∃ code, next = .over (.error code)) ∨ cancelled = false ∧ Follows grantId o m stage next := by
  unfold resume at taken
  split at taken
  · cases taken
  · obtain rfl := Option.some.inj taken
    exact Or.inl ⟨_, rfl⟩
  · obtain ⟨result, proceeds, rfl⟩ := Option.map_eq_some_iff.mp taken
    cases cancelled with
    | true => exact Or.inl ⟨_, rfl⟩
    | false =>
        cases result with
        | error code => exact Or.inl ⟨code, rfl⟩
        | ok next => exact Or.inr ⟨rfl, proceed_ok proceeds⟩

/-! ## Steps -/

@[simp] theorem Call.reach_stage (call : Call) (stage : Stage) : (call.reach stage).stage = stage := by
  unfold Call.reach
  split <;> rfl

@[simp] theorem Call.reach_provider (call : Call) (stage : Stage) :
    (call.reach stage).provider = call.provider := by
  unfold Call.reach
  split <;> rfl

@[simp] theorem Call.reach_lastLoad (call : Call) (stage : Stage) :
    (call.reach stage).lastLoad = call.lastLoad := by
  unfold Call.reach
  split <;> rfl

/-- The owner of a version sends its token, and owns it no more. -/
theorem State.Sound.send {f : Nat} {call next : Call} {c : Claim} {clientId : String}
    (sound : s.Sound grantId options) (at_ : s.calls f = some call)
    (owns : call.stage.owns = some c) (based : c.Based grantId clientId s.history)
    (knows : next.stage.Knows grantId (options next.provider).clientId s.history next.lastLoad)
    (free : next.stage.owns = none) :
    (({ s with requests := ⟨clientId, c.secret, c.refreshToken, c.current.version⟩ :: s.requests } :
      State).set f next).Sound grantId options := by
  have moved : (s.set f next).Sound grantId options :=
    sound.move knows fun c' holds => by rw [free] at holds; cases holds
  refine { moved with apart := ?_, used := ?_, safe := ?_ }
  · intro r mem g call' c' is holds same
    rcases List.mem_cons.mp mem with rfl | mem
    · by_cases equal : g = f
      · subst equal
        rw [State.set_self] at is
        obtain rfl := Option.some.inj is
        rw [free] at holds
        cases holds
      · rw [State.set_other next equal] at is
        exact equal (sound.unique g f call' call c' c is at_ holds owns same)
    · exact moved.apart r mem g call' c' is holds same
  · intro r mem
    rcases List.mem_cons.mp mem with rfl | mem
    · exact sound.owned f call c at_ owns
    · exact sound.used r mem
  · refine ⟨List.pairwise_cons.mpr ⟨fun r mem => ?_, sound.safe.once⟩, ?_, sound.safe.increasing,
      sound.safe.returned⟩
    · exact sound.apart r mem f call c at_ owns
    · intro r mem
      rcases List.mem_cons.mp mem with rfl | mem
      · exact based
      · exact sound.safe.carried r mem

/-- A call ends with a token that is current, which it hands out unless it was cancelled. -/
theorem State.Sound.finish {f : Nat} {call : Call} {m : Moment} {o : Options} {accessToken : String}
    (sound : s.Sound grantId options)
    (current : (⟨call.provider, accessToken, call.lastLoad, m.now⟩ : Returned).Current grantId
      options) :
    ((s.note o call m (.over (.ok accessToken))).set f
      (call.reach (.over (.ok accessToken)))).Sound grantId options := by
  have moved : (s.set f (call.reach (.over (.ok accessToken)))).Sound grantId options := by
    refine sound.move ?_ fun c holds => ?_
    · rw [Call.reach_stage]
      trivial
    · rw [Call.reach_stage] at holds
      cases holds
  unfold State.note
  dsimp only
  split_ifs
  · refine { moved with safe := ⟨sound.safe.once, sound.safe.carried, sound.safe.increasing, ?_⟩ }
    intro r mem
    rcases List.mem_cons.mp mem with rfl | mem
    · exact current
    · exact sound.safe.returned r mem
  · exact moved

/-- A call goes on after an await. -/
theorem State.Sound.follow {f : Nat} {call : Call} {m : Moment} {stage next : Stage}
    (sound : s.Sound grantId options) (at_ : s.calls f = some call) (is : call.stage = stage)
    (follows : Follows grantId (options call.provider) m stage next) :
    ((s.note (options call.provider) call m next).set f (call.reach next)).Sound grantId
      options := by
  have knows := sound.knows f call at_
  rw [is] at knows
  have stay : ∀ next, next.Knows grantId (options call.provider).clientId s.history call.lastLoad →
      (∀ c, next.owns = some c → stage.owns = some c) →
        (s.set f (call.reach next)).Sound grantId options := by
    intro next known owns
    refine sound.move ?_ fun c holds => ⟨call, at_, ?_⟩
    · rw [Call.reach_stage, Call.reach_provider, Call.reach_lastLoad]
      exact known
    · rw [Call.reach_stage] at holds
      rw [is]
      exact owns c holds
  cases follows with
  | allowed r =>
      refine stay _ ?_ fun c holds => ?_
      · cases r <;> exact knows
      · cases r with
        | owned c' => exact holds
        | first | latest | saved => cases holds
  | first found ready =>
      refine stay _ ?_ fun c holds => by cases holds
      change grant _ grantId _ = _
      rw [grant_json found]
      exact found
  | expired found ready =>
      exact stay _ ⟨_, knows.2, _, _, _, found, rfl, ready⟩ fun c holds => by cases holds
  | latest found same ready live =>
      have alike := sameGrant_true same
      rw [grant_json found] at alike
      have current := grant_same found knows.2 alike ready
      exact sound.finish ⟨_, _, _, _, knows.1, found, current, live⟩
  | owned c =>
      refine sound.send at_ (by rw [is]; rfl) knows.2 ?_ ?_
      · rw [Call.reach_stage]
        trivial
      · rw [Call.reach_stage]
        rfl
  | saved found ready live => exact sound.finish ⟨_, _, _, _, knows.1, found, ready, live⟩
  | refresh g token | secret g token secret | claim g token secret uuid now =>
      exact stay _ knows fun c holds => by cases holds
  | claimed c => exact stay _ knows fun c' holds => holds
  | response c started => exact stay _ trivial fun c holds => by cases holds
  | body c started made => exact stay _ (nextGrant_version made) fun c holds => by cases holds
  | stored next => exact stay _ trivial fun c holds => by cases holds

/-- A cancelled call is where it was. -/
theorem State.Sound.close {provider : Nat} (sound : s.Sound grantId options) :
    ({ s with
      closed := Function.update s.closed provider true
      calls := fun f => (s.calls f).map fun call =>
        if call.provider = provider then call.cancel else call } : State).Sound grantId options := by
  have before : ∀ f call, ((s.calls f).map fun call =>
      if call.provider = provider then call.cancel else call) = some call →
      ∃ old, s.calls f = some old ∧ call.stage = old.stage ∧ call.provider = old.provider ∧
        call.lastLoad = old.lastLoad := by
    intro f call is
    obtain ⟨old, was, rfl⟩ := Option.map_eq_some_iff.mp is
    refine ⟨old, was, ?_⟩
    split_ifs <;> exact ⟨rfl, rfl, rfl⟩
  exact
    { nodup := sound.nodup
      knows := by
        intro f call is
        obtain ⟨old, was, stage, provider, load⟩ := before f call is
        rw [stage, provider, load]
        exact sound.knows f old was
      owned := by
        intro f call c is holds
        obtain ⟨old, was, stage, -⟩ := before f call is
        exact sound.owned f old c was (stage ▸ holds)
      unique := by
        intro f g call call' c c' is is' holds holds' same
        obtain ⟨old, was, stage, -⟩ := before f call is
        obtain ⟨old', was', stage', -⟩ := before g call' is'
        exact sound.unique f g old old' c c' was was' (stage ▸ holds) (stage' ▸ holds') same
      apart := by
        intro r mem f call c is holds
        obtain ⟨old, was, stage, -⟩ := before f call is
        exact sound.apart r mem f old c was (stage ▸ holds)
      used := sound.used
      stray := sound.stray
      safe := ⟨sound.safe.once, sound.safe.carried, sound.safe.increasing, sound.safe.returned⟩ }

theorem mem_strays {o : Options} {stage : Stage} {settled : Settled} {swap : Int × Value}
    (mem : swap ∈ strays grantId o stage settled) :
    (∃ c, stage = .claiming c ∧ swap = (c.current.version, c.marked grantId o)) ∨
      ∃ c next, stage = .saving c next ∧ swap = (c.version, next.json) := by
  cases stage with
  | claiming c =>
      cases settled with
      | failed code => exact Or.inl ⟨c, rfl, List.mem_singleton.mp mem⟩
      | _ => cases mem
  | saving c next =>
      cases settled with
      | failed code => exact Or.inr ⟨c, next, rfl, List.mem_singleton.mp mem⟩
      | _ => cases mem
  | _ => cases mem

/-- A swap that fails is one that raises the version. -/
theorem State.Sound.strays {f : Nat} {call : Call} (sound : s.Sound grantId options)
    (at_ : s.calls f = some call) (o : Options) (settled : Settled) :
    ({ s with stray := strays grantId o call.stage settled ++ s.stray } : State).Sound grantId
      options := by
  refine { sound with stray := ?_, safe := ⟨sound.safe.once, sound.safe.carried,
    sound.safe.increasing, sound.safe.returned⟩ }
  intro swap mem
  rcases List.mem_append.mp mem with mem | mem
  · have knows := sound.knows f call at_
    rcases mem_strays mem with ⟨c, is, rfl⟩ | ⟨c, next, is, rfl⟩
    · exact versionOf_marked o c
    · rw [is] at knows
      exact knows
  · exact sound.stray swap mem

theorem State.Sound.landStray {i : Nat} (sound : s.Sound grantId options)
    (taken : s.landStray i = some t) : t.Sound grantId options := by
  unfold State.landStray at taken
  split at taken
  · next expected next found =>
      obtain ⟨⟨swapped, u⟩, swap, rfl⟩ := Option.map_eq_some_iff.mp taken
      have after : u.Sound grantId options := by
        rcases State.swap_cases swap with ⟨-, rfl⟩ | ⟨-, was, v, stored, rfl⟩
        · exact sound
        · exact (sound.swapped was (sound.stray _ (List.mem_of_getElem? found)) stored).1
      exact { after with
        stray := fun swap mem => after.stray swap (List.mem_of_mem_eraseIdx mem)
        safe := ⟨after.safe.once, after.safe.carried, after.safe.increasing, after.safe.returned⟩ }
  · cases taken

theorem State.Sound.resume {f : Nat} {call : Call} {m : Moment} {settled : Settled}
    (sound : s.Sound grantId options) (at_ : s.calls f = some call)
    (taken : s.resume grantId (options call.provider) f call m settled = some t) :
    t.Sound grantId options := by
  obtain ⟨next, resumed, rfl⟩ := Option.map_eq_some_iff.mp taken
  have sound := sound.strays at_ (options call.provider) settled
  rcases resume_cases resumed with ⟨code, rfl⟩ | ⟨-, follows⟩
  · refine sound.move ?_ fun c holds => ?_
    · rw [Call.reach_stage]
      trivial
    · rw [Call.reach_stage] at holds
      cases holds
  · exact sound.follow at_ rfl follows

theorem State.Sound.step {e : Event} (sound : s.Sound grantId options)
    (taken : s.step grantId options e = some t) : t.Sound grantId options := by
  cases e with
  | call f provider m aborted =>
      dsimp only [State.step] at taken
      split at taken
      · obtain rfl := Option.some.inj taken
        unfold State.start
        dsimp only
        split_ifs
        · exact sound.move trivial fun c holds => by cases holds
        · exact sound.move trivial fun c holds => by cases holds
      · cases taken
  | abort f =>
      obtain ⟨call, at_, rfl⟩ := Option.map_eq_some_iff.mp taken
      exact sound.move (sound.knows f call at_) fun c holds => ⟨call, at_, holds⟩
  | close provider =>
      obtain rfl := Option.some.inj taken
      exact sound.close
  | land f =>
      dsimp only [State.step] at taken
      split at taken
      · next at_ => exact sound.land at_ taken
      · cases taken
  | resume f m settled =>
      dsimp only [State.step] at taken
      split at taken
      · next at_ => exact sound.resume at_ taken
      · cases taken
  | stray i => exact sound.landStray taken
  | reconnect value => exact sound.put taken

/-! ## Unknown outcomes -/

/-- The requests that carried the token a version was marked to refresh. -/
def State.sent (s : State) (version : Int) : List Request :=
  s.requests.filter fun r => r.version + 1 = version

theorem Call.mayRefresh.of_cancel {call : Call} {version : Int}
    (may : call.cancel.mayRefresh version) : call.mayRefresh version := by
  unfold Call.mayRefresh Call.cancel at *
  dsimp only at may
  split at may
  case h_7 => exact may
  case h_8 => exact may
  all_goals cases may.2

/-- A call that may refresh a grant after an await might before. -/
theorem Call.mayRefresh.of_follows {call : Call} {version : Int} {o : Options} {m : Moment}
    {next : Stage} (live : call.aborted = false) (follows : Follows grantId o m call.stage next)
    (may : (call.reach next).mayRefresh version) : call.mayRefresh version := by
  generalize is : call.stage = stage at follows
  unfold Call.mayRefresh at may ⊢
  rw [Call.reach_stage] at may
  rw [is]
  cases follows with
  | allowed r =>
      cases r with
      | owned c => exact ⟨may.1, live⟩
      | first | latest | saved => cases may
  | claimed c => exact ⟨may.1, live⟩
  | response c started => exact ⟨may.1, live⟩
  | body c started made => exact ⟨may, live⟩
  | owned c => exact ⟨may.1, live⟩
  | _ => cases may

/-- The grant stays as it is, the calls stay unable to finish its refresh, and its token is not sent
again. -/
structure Stays (version : Int) (s t : State) : Prop where
  store : t.store = s.store
  calls : ∀ f call, t.calls f = some call → ¬ call.mayRefresh version
  stray : ∀ swap ∈ t.stray, swap.1 ≠ version
  sent : t.sent version = s.sent version

theorem State.Unknown.set {version : Int} {f : Nat} {call : Call}
    (unknown : s.Unknown grantId version) (still : ¬ call.mayRefresh version) : Stays version s (s.set f call) where
  store := rfl
  calls g other at_ := by
    by_cases same : g = f
    · subst same
      rw [State.set_self] at at_
      obtain rfl := Option.some.inj at_
      exact still
    · rw [State.set_other call same] at at_
      exact unknown.2.1 g other at_
  stray := unknown.2.2
  sent := rfl

/-- No swap replaces a grant whose refresh no call can finish. -/
theorem State.Unknown.no_swap {version : Int} {f : Nat} {call : Call} {expected : Int}
    (sound : s.Sound grantId options) (unknown : s.Unknown grantId version)
    (at_ : s.calls f = some call) (is : (∃ c, call.stage = .claiming c ∧ expected = c.current.version) ∨
      ∃ c next, call.stage = .saving c next ∧ expected = c.version) :
    versionOf s.store ≠ some expected := by
  obtain ⟨⟨client, g, attempt, found, rfl, refreshing⟩, unable, -⟩ := unknown
  rw [versionOf_grant found]
  intro same
  have same := Option.some.inj same
  have knows := sound.knows f call at_
  rcases is with ⟨c, is, rfl⟩ | ⟨c, next, is, rfl⟩
  · rw [is] at knows
    obtain ⟨v, mem, h, a, e, holds, version, ready⟩ := knows
    have stored : v = s.store := by
      refine sound.store_eq (versionOf_grant found) mem ?_
      rw [versionOf_grant holds, version, same]
    subst stored
    exact grant_state_ne holds found ready refreshing
  · refine unable f call at_ ?_
    unfold Call.mayRefresh
    rw [is]
    exact same.symm

/-- The swap of a call that fails does not expect the version. -/
theorem State.Unknown.strays {version : Int} {f : Nat} {call : Call}
    (sound : s.Sound grantId options) (unknown : s.Unknown grantId version)
    (at_ : s.calls f = some call) (o : Options) (settled : Settled) :
    ∀ swap ∈ strays grantId o call.stage settled ++ s.stray, swap.1 ≠ version := by
  obtain ⟨client, g, attempt, stored, rfl, -⟩ := unknown.1
  intro swap mem same
  rcases List.mem_append.mp mem with mem | mem
  · have stays := fun expected => @State.Unknown.no_swap grantId options s _ f call expected sound
      unknown at_
    rw [versionOf_grant stored] at stays
    rcases mem_strays mem with ⟨c, is, rfl⟩ | ⟨c, next, is, rfl⟩
    · exact stays _ (Or.inl ⟨c, is, rfl⟩) (congrArg some same.symm)
    · exact stays _ (Or.inr ⟨c, next, is, rfl⟩) (congrArg some same.symm)
  · exact unknown.2.2 swap mem same

theorem State.Unknown.resume {version : Int} {f : Nat} {call : Call} {m : Moment}
    {settled : Settled} (sound : s.Sound grantId options) (unknown : s.Unknown grantId version)
    (at_ : s.calls f = some call)
    (taken : s.resume grantId (options call.provider) f call m settled = some t) :
    Stays version s t := by
  obtain ⟨next, resumed, rfl⟩ := Option.map_eq_some_iff.mp taken
  have strays := unknown.strays sound at_ (options call.provider) settled
  have move : ∀ next, ¬ (call.reach next).mayRefresh version → Stays version s
      ({ s with stray := OAuth.strays grantId (options call.provider) call.stage settled ++ s.stray }.set
        f (call.reach next)) := fun next still =>
    ⟨rfl, (unknown.set still).calls, strays, rfl⟩
  rcases resume_cases resumed with ⟨code, rfl⟩ | ⟨live, follows⟩
  · refine move _ fun may => ?_
    unfold Call.mayRefresh at may
    rw [Call.reach_stage] at may
    exact may
  · unfold State.cancelled at live
    simp only [Bool.or_eq_false_iff] at live
    have still : ¬ (call.reach next).mayRefresh version := fun may =>
      unknown.2.1 f call at_ (may.of_follows live.1.2 follows)
    have stays := move next still
    unfold State.note
    split
    · next c started =>
        refine ⟨rfl, stays.calls, strays, ?_⟩
        unfold State.sent
        refine List.filter_cons_of_neg fun same => still ?_
        unfold Call.mayRefresh
        rw [Call.reach_stage]
        refine ⟨of_decide_eq_true same, ?_⟩
        unfold Call.reach
        exact live.1.2
    · split_ifs
      · exact ⟨rfl, stays.calls, strays, rfl⟩
      · exact stays
    · exact stays

theorem State.Unknown.step {version : Int} {e : Event} (sound : s.Sound grantId options)
    (unknown : s.Unknown grantId version) (own : e.isReconnect = false)
    (taken : s.step grantId options e = some t) : Stays version s t := by
  have unable := unknown.2.1
  cases e with
  | call f provider m aborted =>
      dsimp only [State.step] at taken
      split at taken
      · obtain rfl := Option.some.inj taken
        unfold State.start
        dsimp only
        split_ifs
        · exact unknown.set id
        · exact unknown.set id
      · cases taken
  | abort f =>
      obtain ⟨call, at_, rfl⟩ := Option.map_eq_some_iff.mp taken
      exact unknown.set fun may => unable f call at_ may.of_cancel
  | close provider =>
      obtain rfl := Option.some.inj taken
      refine ⟨rfl, fun f call at_ may => ?_, unknown.2.2, rfl⟩
      obtain ⟨old, was, rfl⟩ := Option.map_eq_some_iff.mp at_
      refine unable f old was ?_
      split_ifs at may
      · exact may.of_cancel
      · exact may
  | land f =>
      dsimp only [State.step] at taken
      split at taken
      · next call at_ =>
          unfold State.land at taken
          split at taken
          · next r is =>
              obtain rfl := Option.some.inj taken
              refine unknown.set fun may => unable f call at_ ?_
              unfold Call.mayRefresh at may ⊢
              rw [is]
              cases r with
              | owned c => exact may
              | first | latest | saved => cases may
          · next c is =>
              obtain ⟨⟨swapped, u⟩, swap, rfl⟩ := Option.map_eq_some_iff.mp taken
              rcases State.swap_cases swap with ⟨rfl, rfl⟩ | ⟨-, was, -⟩
              · exact unknown.set id
              · exact absurd was (unknown.no_swap sound at_ (Or.inl ⟨c, is, rfl⟩))
          · next c next is =>
              obtain ⟨⟨swapped, u⟩, swap, rfl⟩ := Option.map_eq_some_iff.mp taken
              rcases State.swap_cases swap with ⟨rfl, rfl⟩ | ⟨-, was, -⟩
              · exact unknown.set id
              · exact absurd was (unknown.no_swap sound at_ (Or.inr ⟨c, next, is, rfl⟩))
          · cases taken
      · cases taken
  | resume f m settled =>
      dsimp only [State.step] at taken
      split at taken
      · next at_ => exact unknown.resume sound at_ taken
      · cases taken
  | stray i =>
      dsimp only [State.step, State.landStray] at taken
      split at taken
      · next expected next found =>
          obtain ⟨⟨swapped, u⟩, swap, rfl⟩ := Option.map_eq_some_iff.mp taken
          have other := unknown.2.2 _ (List.mem_of_getElem? found)
          obtain ⟨client, g, attempt, stored, version, -⟩ := unknown.1
          rcases State.swap_cases swap with ⟨-, rfl⟩ | ⟨-, was, -⟩
          · exact ⟨rfl, unable, fun swap mem => unknown.2.2 swap (List.mem_of_mem_eraseIdx mem), rfl⟩
          · rw [versionOf_grant stored, version] at was
            exact absurd (Option.some.inj was).symm other
      · cases taken
  | reconnect value => cases own

/-! ## Runs -/

theorem State.Unknown.stays {version : Int} (unknown : s.Unknown grantId version)
    (stays : Stays version s t) : t.Unknown grantId version := by
  refine ⟨?_, stays.calls, stays.stray⟩
  rw [stays.store]
  exact unknown.1

/-- **A refresh token is used once.**  In every run of the providers' calls over one store, the
grant and the requests are safe; and a grant whose refresh no call can finish stays as it is until it
is connected again, its token never sent again. -/
theorem refresh_token_once {store : Value} {events : List Event}
    (taken : Machine.run (State.step grantId options) (State.new store) events = some s) :
    s.Safe grantId options ∧
    (Rotating grantId s.history → (s.requests.map (·.refreshToken)).Nodup) ∧
    ∀ version, s.Unknown grantId version → ∀ more t, (∀ e ∈ more, e.isReconnect = false) →
      Machine.run (State.step grantId options) s more = some t →
        t.store = s.store ∧ t.sent version = s.sent version := by
  have sound : s.Sound grantId options := Machine.run_keeps (P := State.Sound grantId options)
    (fun _ _ _ sound taken => sound.step taken) (.new store) taken
  refine ⟨sound.safe, fun rotating => ?_, fun version unknown more => ?_⟩
  · rw [List.Nodup, List.pairwise_map]
    refine sound.safe.once.imp_of_mem fun {a b} first second other same => other ?_
    obtain ⟨v, mem, holds⟩ := sound.safe.carried a first
    obtain ⟨w, mem', holds'⟩ := sound.safe.carried b second
    rw [← same] at holds'
    exact rotating v mem w mem' _ _ _ _ _ holds holds'
  · intro t own run
    have kept := Machine.run_keeps_of
      (P := fun t => t.Sound grantId options ∧ t.Unknown grantId version ∧ t.store = s.store ∧
        t.sent version = s.sent version)
      (fun u e t holds own taken =>
        have stays := holds.2.1.step holds.1 own taken
        ⟨holds.1.step taken, holds.2.1.stays stays, stays.store.trans holds.2.2.1,
          stays.sent.trans holds.2.2.2⟩)
      ⟨sound, unknown, rfl, rfl⟩ (Machine.Always.of_forall s own) run
    exact kept.2.2

namespace Demo

/-- A grant that has expired. -/
def expired : Value := record [("version", jsonInt 1), ("grant_id", jsonString "grant"),
  ("client_id", jsonString "client"), ("state", jsonString "ready"),
  ("access_token", jsonString "access"), ("refresh_token", jsonString "refresh"),
  ("expires_at", jsonInt 1000), ("scope", jsonString "read:page:confluence")]

def client (_ : Nat) : Options := ⟨"client", 10000, 30000⟩

def later : Moment := ⟨0, 5000, "00000000-0000-4000-8000-000000000001"⟩

/-- A call up to its swap. -/
def claims (f : Nat) : List Event :=
  [.call f f later false, .resume f later (.allowed true), .land f, .resume f later .answered,
    .resume f later (.allowed true), .resume f later (.secret (jsonString "secret")),
    .resume f later (.allowed true)]

/-- Two calls swap at once, the token is sent, and its response is lost. -/
def raced : List Event :=
  claims 0 ++ claims 1 ++ [.land 0, .land 1, .resume 1 later .answered, .resume 0 later .answered,
    .resume 0 later (.allowed true), .land 0, .resume 0 later .answered,
    .resume 0 later (.failed none)]

/-- The token is sent once, and the grant is still being refreshed. -/
theorem refresh_token_once_raced : ∃ s,
    Machine.run (State.step "grant" client) (State.new expired) raced = some s ∧
      s.requests.map (fun r => (r.refreshToken, r.version)) = [("refresh", 1)] ∧
        versionOf s.store = some 2 ∧ s.Safe "grant" client := by
  have sent : (Machine.run (State.step "grant" client) (State.new expired) raced).map
      (fun s => (s.requests.map (fun r => (r.refreshToken, r.version)), versionOf s.store)) =
        some ([("refresh", 1)], some 2) := by decide
  obtain ⟨s, taken, same⟩ := Option.map_eq_some_iff.mp sent
  obtain ⟨requests, version⟩ := Prod.mk.inj same
  exact ⟨s, taken, requests, version, (refresh_token_once taken).1⟩

end Demo

end Knowledger.OAuth
