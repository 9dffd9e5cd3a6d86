import Knowledger.Auth.Oidc

/-!
# Sessions are current

A session is stored under an id that is drawn once, so one that was removed never comes back.  An
operation's result is returned only behind a verification of the session that is stored at its end.
`session` does not look again: it returns a session that was removed while it was verified.
-/

namespace Knowledger.Oidc

open Js

variable {o : Options} {s t : State}

/-! ## The statement -/

/-- After the operation the user information of the session's subject was accepted, with the version
of its login, its actor was resolved, and the session was still stored. -/
structure Returned.Current (o : Options) (r : Returned) : Prop where
  stored : r.stored = true
  actor : .actor r.record.subject r.record.actor ∈ r.since
  info : ∃ version, .info r.record.subject version ∈ r.since ∧
    (o.versioned = true → version.isSome ∧ version = r.record.authorizationVersion)

structure State.Safe (o : Options) (s : State) : Prop where
  flows : s.flows.length ≤ 128
  sessions : s.sessions.length ≤ 256
  once : (s.consumed.map fun x => x.1.id).Nodup
  live : ∀ x ∈ s.consumed, x.2 < x.1.expires
  returned : ∀ r ∈ s.returned, r.Current o
  removed : ∀ id ∈ s.removed, s.find id = none
  accepted : ∀ a ∈ s.accepted, a.removed = false

/-- The session that `session` returns on an answer. -/
def State.returns (o : Options) (s : State) : Event → Option SessionRecord
  | .answer f (.actor actor) .. =>
      match s.stages f with
      | .confirming .session record version _ =>
          if actor = some record.actor then confirm o .session record version else none
      | _ => none
  | _ => none

/-- A session that `session` returns is still the stored one. -/
def Undisturbed (o : Options) (s : State) (e : Event) : Prop :=
  ∀ record ∈ s.returns o e, s.holds record = true

instance (s : State) (e : Event) : Decidable (Undisturbed o s e) :=
  inferInstanceAs (Decidable (∀ record ∈ s.returns o e, s.holds record = true))

/-! ## The invariant -/

/-- The session of a login that is being verified. -/
def Stage.newcomer : Stage → Option SessionRecord
  | .resolving (.callback _) record | .fetching (.callback _) record _
  | .confirming (.callback _) record _ _ => some record
  | _ => none

/-- What a stage has seen. -/
def Stage.Seen : Stage → Prop
  | .confirming _ record version since => .info record.subject version ∈ since
  | _ => True

/-- The id was drawn, and is neither stored nor removed. -/
structure State.Free (s : State) (id : String) : Prop where
  drawn : id ∈ s.drawn
  absent : ∀ r ∈ s.sessions, r.id ≠ id
  kept : id ∉ s.removed

structure State.Sound (o : Options) (s : State) : Prop where
  flowIds : (s.flows.map (·.id)).Nodup
  flowDrawn : ∀ flow ∈ s.flows, flow.id ∈ s.drawn
  flowFew : s.flows.length ≤ 128
  consumedOnce : (s.consumed.map fun x => x.1.id).Nodup
  consumedDrawn : ∀ x ∈ s.consumed, x.1.id ∈ s.drawn
  consumedGone : ∀ x ∈ s.consumed, ∀ flow ∈ s.flows, flow.id ≠ x.1.id
  consumedLive : ∀ x ∈ s.consumed, x.2 < x.1.expires
  ids : (s.sessions.map (·.id)).Nodup
  drawn : ∀ r ∈ s.sessions, r.id ∈ s.drawn
  few : s.sessions.length ≤ 256
  removedDrawn : ∀ id ∈ s.removed, id ∈ s.drawn
  gone : ∀ r ∈ s.sessions, r.id ∉ s.removed
  seen : ∀ f, (s.stages f).Seen
  free : ∀ f record, (s.stages f).newcomer = some record → s.Free record.id
  apart : ∀ f g record record', (s.stages f).newcomer = some record →
    (s.stages g).newcomer = some record' → record.id = record'.id → f = g
  accepted : ∀ a ∈ s.accepted, a.session = false → a.removed = false
  returned : ∀ r ∈ s.returned, r.Current o

theorem State.Sound.new : State.new.Sound o where
  flowIds := List.nodup_nil
  flowDrawn flow mem := by cases mem
  flowFew := Nat.zero_le _
  consumedOnce := List.nodup_nil
  consumedDrawn x mem := by cases mem
  consumedGone x mem := by cases mem
  consumedLive x mem := by cases mem
  ids := List.nodup_nil
  drawn r mem := by cases mem
  few := Nat.zero_le _
  removedDrawn id mem := by cases mem
  gone r mem := by cases mem
  seen f := trivial
  free f record is := by cases is
  apart f g record record' is := by cases is
  accepted a mem := by cases mem
  returned r mem := by cases mem

theorem State.find_some {id : String} {record : SessionRecord} (found : s.find id = some record) :
    record ∈ s.sessions ∧ record.id = id := by
  have is := List.find?_some found
  exact ⟨List.mem_of_find?_eq_some found, eq_of_beq is⟩

/-- Sessions are removed. -/
theorem State.Sound.deleteAll (sound : s.Sound o) (gone : SessionRecord → Bool) :
    (s.deleteAll gone).Sound o :=
  { sound with
    ids := sound.ids.sublist (List.filter_sublist.map _)
    drawn := fun r mem => sound.drawn r (List.mem_of_mem_filter mem)
    few := (List.length_filter_le _ _).trans sound.few
    removedDrawn := fun id mem => by
      rcases List.mem_append.mp mem with mem | mem
      · obtain ⟨r, inside, rfl⟩ := List.mem_map.mp mem
        exact sound.drawn r (List.mem_of_mem_filter inside)
      · exact sound.removedDrawn id mem
    gone := fun r mem inside => by
      obtain ⟨stored, kept⟩ := List.mem_filter.mp mem
      rcases List.mem_append.mp inside with inside | inside
      · obtain ⟨r', removed, same⟩ := List.mem_map.mp inside
        obtain ⟨stored', was⟩ := List.mem_filter.mp removed
        obtain rfl := List.inj_on_of_nodup_map sound.ids stored' stored same
        rw [was] at kept
        cases kept
      · exact sound.gone r stored inside
    free := fun f record is =>
      have was := sound.free f record is
      { drawn := was.drawn
        absent := fun r mem => was.absent r (List.mem_of_mem_filter mem)
        kept := fun mem => by
          rcases List.mem_append.mp mem with mem | mem
          · obtain ⟨r, inside, same⟩ := List.mem_map.mp mem
            exact was.absent r (List.mem_of_mem_filter inside) same
          · exact was.kept mem } }

/-- Flows are removed. -/
theorem State.Sound.keepFlows (sound : s.Sound o) (kept : LoginFlow → Bool) :
    ({ s with flows := s.flows.filter kept } : State).Sound o :=
  { sound with
    flowIds := sound.flowIds.sublist (List.filter_sublist.map _)
    flowDrawn := fun flow mem => sound.flowDrawn flow (List.mem_of_mem_filter mem)
    flowFew := (List.length_filter_le _ _).trans sound.flowFew
    consumedGone := fun x mem flow inside =>
      sound.consumedGone x mem flow (List.mem_of_mem_filter inside)
    free := fun f record is =>
      have was := sound.free f record is
      ⟨was.drawn, was.absent, was.kept⟩ }

theorem State.Sound.cleanup (sound : s.Sound o) (now : Int) : (s.cleanup now).Sound o :=
  (sound.keepFlows _).deleteAll _

/-! ## Moves of a request -/

@[simp] theorem State.set_self (s : State) (f : Nat) (stage : Stage) :
    (s.set f stage).stages f = stage := by
  simp [State.set]

theorem State.set_other {f g : Nat} (stage : Stage) (other : g ≠ f) :
    (s.set f stage).stages g = s.stages g := by
  simp [State.set, Function.update_of_ne other]

/-- No other login has the id. -/
def State.Alone (s : State) (f : Nat) (id : String) : Prop :=
  ∀ g record, g ≠ f → (s.stages g).newcomer = some record → record.id ≠ id

/-- A request reaches a stage, whose newcomer is free. -/
theorem State.Sound.move {f : Nat} {stage : Stage} (sound : s.Sound o) (seen : stage.Seen)
    (free : ∀ record, stage.newcomer = some record → s.Free record.id ∧ s.Alone f record.id) :
    (s.set f stage).Sound o :=
  { sound with
    seen := fun g => by
      by_cases same : g = f
      · subst same
        rw [State.set_self]
        exact seen
      · rw [State.set_other stage same]
        exact sound.seen g
    free := fun g record is => by
      by_cases same : g = f
      · subst same
        rw [State.set_self] at is
        obtain ⟨drawn, absent, kept⟩ := (free record is).1
        exact ⟨drawn, absent, kept⟩
      · rw [State.set_other stage same] at is
        obtain ⟨drawn, absent, kept⟩ := sound.free g record is
        exact ⟨drawn, absent, kept⟩
    apart := fun g h record record' first second same => by
      by_cases left : g = f
      · by_cases right : h = f
        · rw [left, right]
        · subst left
          rw [State.set_self] at first
          rw [State.set_other stage right] at second
          exact absurd same.symm ((free record first).2 h record' right second)
      · rw [State.set_other stage left] at first
        by_cases right : h = f
        · subst right
          rw [State.set_self] at second
          exact absurd same ((free record' second).2 g record left first)
        · rw [State.set_other stage right] at second
          exact sound.apart g h record record' first second same }

theorem State.Sound.over (sound : s.Sound o) (f : Nat) : (s.set f .over).Sound o :=
  sound.move trivial fun record is => by cases is

/-- The newcomer of a stage is free. -/
theorem State.Sound.newcomer {f : Nat} {record : SessionRecord} (sound : s.Sound o)
    (is : (s.stages f).newcomer = some record) : s.Free record.id ∧ s.Alone f record.id :=
  ⟨sound.free f record is, fun g record' other is' same =>
    other (sound.apart g f record' record is' is same)⟩

theorem State.Sound.fail {f : Nat} {p : Purpose} {record : SessionRecord} (sound : s.Sound o)
    (unavailable : Bool) : (s.fail f p record unavailable).Sound o := by
  unfold State.fail
  split
  · split_ifs
    · exact sound.over f
    · exact (sound.deleteAll _).over f
  · exact sound.over f

/-- A verification begins; that of a login, with a free record. -/
theorem State.Sound.verify {f : Nat} {p : Purpose} {record : SessionRecord} (sound : s.Sound o)
    (now : Int) (free : ∀ previous, p = .callback previous →
      s.Free record.id ∧ s.Alone f record.id) : (s.verify f p record now).Sound o := by
  unfold State.verify
  split_ifs
  · exact sound.fail false
  · refine sound.move trivial fun other is => ?_
    cases p with
    | callback previous =>
        obtain rfl := Option.some.inj is
        exact free previous rfl
    | session | assert | before | after => cases is

theorem State.Sound.assertCurrentActor {f : Nat} {p : Purpose} {id : String} {actor : Actor}
    (sound : s.Sound o) (now : Int) (other : ∀ previous, p ≠ .callback previous) :
    (s.assertCurrentActor f p id actor now).Sound o := by
  unfold State.assertCurrentActor
  split
  · split_ifs
    · exact sound.verify now fun previous is => absurd is (other previous)
    · exact sound.over f
  · exact sound.over f

/-- A request is accepted, for a session that is stored. -/
theorem State.Sound.accept {id : String} {session : Bool} (sound : s.Sound o)
    (stored : session = false → ∃ r ∈ s.sessions, r.id = id) : (s.accept session id).Sound o :=
  { sound with
    free := fun f record is =>
      have was := sound.free f record is
      ⟨was.drawn, was.absent, was.kept⟩
    accepted := fun a mem asserts => by
      rcases List.mem_cons.mp mem with rfl | mem
      · obtain ⟨r, inside, rfl⟩ := stored asserts
        exact Bool.eq_false_iff.mpr fun has => sound.gone r inside (List.contains_iff_mem.mp has)
      · exact sound.accepted a mem asserts }

/-- A login stores its session. -/
theorem State.Sound.store {f : Nat} {record : SessionRecord} (sound : s.Sound o)
    (free : s.Free record.id) (alone : s.Alone f record.id) (few : s.sessions.length < 256) :
    ({ s with sessions := s.sessions ++ [record] }.set f .over).Sound o := by
  have moved := sound.over f
  refine { moved with ids := ?_, drawn := ?_, few := ?_, gone := ?_, free := ?_ }
  · change ((s.sessions ++ [record]).map (·.id)).Nodup
    rw [List.map_append, List.nodup_append]
    refine ⟨sound.ids, List.nodup_singleton _, fun a first b second same => ?_⟩
    obtain ⟨r, mem, rfl⟩ := List.mem_map.mp first
    obtain rfl := List.mem_singleton.mp second
    exact free.absent r mem same
  · intro r mem
    rcases List.mem_append.mp mem with mem | mem
    · exact sound.drawn r mem
    · obtain rfl := List.mem_singleton.mp mem
      exact free.drawn
  · change (s.sessions ++ [record]).length ≤ 256
    rw [List.length_append, List.length_singleton]
    exact few
  · intro r mem
    rcases List.mem_append.mp mem with mem | mem
    · exact sound.gone r mem
    · obtain rfl := List.mem_singleton.mp mem
      exact free.kept
  · intro g other is
    have was := moved.free g other is
    refine ⟨was.drawn, fun r mem => ?_, was.kept⟩
    rcases List.mem_append.mp mem with mem | mem
    · exact was.absent r mem
    · obtain rfl := List.mem_singleton.mp mem
      by_cases same : g = f
      · subst same
        rw [State.set_self] at is
        cases is
      · have is : (s.stages g).newcomer = some other := by
          rwa [State.set_other .over same] at is
        exact fun equal => alone g other same is equal.symm

theorem State.holds_some {record : SessionRecord} (holds : s.holds record = true) :
    record ∈ s.sessions :=
  (State.find_some (eq_of_beq holds)).1

/-- The verification of an operation's end has passed. -/
theorem State.Sound.give {record : SessionRecord} {since : List Answered} (sound : s.Sound o)
    (holds : s.holds record = true) (current : (⟨record, since, true⟩ : Returned).Current o) :
    ({ s.accept false record.id with
      returned := ⟨record, since, s.holds record⟩ :: s.returned } : State).Sound o := by
  have accepted : (s.accept false record.id).Sound o :=
    sound.accept fun _ => ⟨record, State.holds_some holds, rfl⟩
  refine { accepted with free := fun f other is => ?_, returned := fun r mem => ?_ }
  · obtain ⟨drawn, absent, kept⟩ := accepted.free f other is
    exact ⟨drawn, absent, kept⟩
  · rcases List.mem_cons.mp mem with rfl | mem
    · rw [holds]
      exact current
    · exact sound.returned r mem

theorem State.Sound.pass {f : Nat} {p : Purpose} {record : SessionRecord} {since : List Answered}
    (sound : s.Sound o)
    (free : ∀ previous, p = .callback previous → s.Free record.id ∧ s.Alone f record.id)
    (current : p = .after → (⟨record, since, true⟩ : Returned).Current o) :
    (s.pass f p record since).Sound o := by
  unfold State.pass
  split
  · next previous =>
      obtain ⟨isFree, alone⟩ := free previous rfl
      split_ifs with full
      · exact sound.over f
      · have few : s.sessions.length < 256 := Nat.not_le.mp full
        cases previous with
        | none => exact sound.store isFree alone few
        | some id =>
            have after := sound.deleteAll fun r => r.id == id
            refine after.store ?_ alone (lt_of_le_of_lt (List.length_filter_le _ _) few)
            refine ⟨isFree.drawn, fun r mem => isFree.absent r (List.mem_of_mem_filter mem), ?_⟩
            intro mem
            rcases List.mem_append.mp mem with mem | mem
            · obtain ⟨r, inside, same⟩ := List.mem_map.mp mem
              exact isFree.absent r (List.mem_of_mem_filter inside) same
            · exact isFree.kept mem
  · exact State.Sound.over (sound.accept fun is => by cases is) f
  · split_ifs with holds
    · exact State.Sound.over (sound.accept fun _ => ⟨record, State.holds_some holds, rfl⟩) f
    · exact sound.over f
  · refine sound.move ?_ fun other is => ?_
    · split_ifs <;> trivial
    · split_ifs at is <;> cases is
  · split_ifs with holds
    · exact State.Sound.over (sound.give holds (current rfl)) f
    · exact sound.over f

/-- What the last answer of a verification confirms. -/
theorem confirm_some {p : Purpose} {record confirmed : SessionRecord} {version : Option Version}
    (is : confirm o p record version = some confirmed) :
    confirmed.id = record.id ∧ confirmed.subject = record.subject ∧ confirmed.actor = record.actor ∧
      ((∀ previous, p ≠ .callback previous) → confirmed = record ∧
        (o.versioned = true → version.isSome ∧ version = record.authorizationVersion)) := by
  unfold confirm at is
  split_ifs at is with versioned
  · split at is
    · cases is
    · next version previous =>
        obtain rfl := Option.some.inj is
        exact ⟨rfl, rfl, rfl, fun other => absurd rfl (other previous)⟩
    · next version p other =>
        obtain ⟨same, rfl⟩ := (Option.ite_none_right_eq_some.mp is).imp_right Option.some.inj
        exact ⟨rfl, rfl, rfl, fun _ => ⟨rfl, fun _ => ⟨rfl, same.symm⟩⟩⟩
  · obtain rfl := Option.some.inj is
    exact ⟨rfl, rfl, rfl, fun _ => ⟨rfl, fun is => absurd is versioned⟩⟩

theorem State.Sound.answer {f : Nat} {a : Answer} {now : Int} {id csrf : String}
    (sound : s.Sound o) (taken : s.answer o f a now id csrf = some t) : t.Sound o := by
  have seen := sound.seen f
  unfold State.answer at taken
  split at taken
  case h_1 previous claims =>
    split at taken
    · split_ifs at taken
      · obtain rfl := Option.some.inj taken
        exact sound.move trivial fun record is => by cases is
      · obtain rfl := Option.some.inj taken
        exact sound.over f
    · obtain rfl := Option.some.inj taken
      exact sound.over f
  case h_2 previous claims actor at_ =>
    split at taken
    · dsimp only at taken
      split_ifs at taken with checks used
      · obtain rfl := Option.some.inj taken
        have drawn : ({ s with drawn := id :: s.drawn } : State).Sound o :=
          { sound with
            flowDrawn := fun flow mem => List.mem_cons_of_mem _ (sound.flowDrawn flow mem)
            consumedDrawn := fun x mem => List.mem_cons_of_mem _ (sound.consumedDrawn x mem)
            drawn := fun r mem => List.mem_cons_of_mem _ (sound.drawn r mem)
            removedDrawn := fun id mem => List.mem_cons_of_mem _ (sound.removedDrawn id mem)
            free := fun g record is =>
              have was := sound.free g record is
              ⟨List.mem_cons_of_mem _ was.drawn, was.absent, was.kept⟩ }
        refine drawn.verify now fun previous is => ⟨⟨List.mem_cons_self, ?_, ?_⟩, ?_⟩
        · intro r mem same
          have same : r.id = id := same
          exact used (same ▸ sound.drawn r mem)
        · exact fun mem => used (sound.removedDrawn _ mem)
        · intro g record other is same
          have same : record.id = id := same
          exact used (same ▸ (sound.free g record is).drawn)
      · obtain rfl := Option.some.inj taken
        exact sound.over f
    · obtain rfl := Option.some.inj taken
      exact sound.over f
  case h_3 p record actor at_ =>
    obtain rfl := Option.some.inj taken
    split_ifs
    · refine sound.move trivial fun other is => sound.newcomer ?_
      rw [at_]
      cases p <;> exact is
    · exact sound.fail false
  case h_4 p record since version at_ =>
    obtain rfl := Option.some.inj taken
    split_ifs
    · exact sound.fail false
    · refine sound.move List.mem_cons_self fun other is => sound.newcomer ?_
      rw [at_]
      cases p <;> exact is
  case h_5 p record since unavailable at_ =>
    obtain rfl := Option.some.inj taken
    exact sound.fail unavailable
  case h_6 p record version since actor at_ =>
    obtain rfl := Option.some.inj taken
    rw [at_] at seen
    split_ifs
    · split
      · next confirmed is =>
          obtain ⟨sameId, -, -, same⟩ := confirm_some is
          refine sound.pass (fun previous callback => ?_) fun after => ?_
          · rw [sameId]
            refine sound.newcomer ?_
            rw [at_, callback]
            rfl
          · obtain ⟨rfl, versions⟩ := same fun previous is => by
              rw [after] at is
              cases is
            exact ⟨rfl, List.mem_cons_self, version, List.mem_cons_of_mem _ seen, versions⟩
      · exact sound.fail false
    · exact sound.fail false
  case h_7 id' actor at_ =>
    obtain rfl := Option.some.inj taken
    exact sound.assertCurrentActor now fun previous => nofun
  case h_8 | h_9 =>
    obtain rfl := Option.some.inj taken
    exact sound.fail false
  case h_10 | h_11 | h_12 =>
    obtain rfl := Option.some.inj taken
    exact sound.over f
  case h_13 => cases taken

/-! ## Steps -/

theorem State.Sound.login {id : String} {now : Int} (sound : s.Sound o) (fresh : id ∉ s.drawn) :
    (s.login id now).Sound o := by
  unfold State.login
  split_ifs with full
  · exact sound
  · have unused : ∀ flow ∈ s.flows, flow.id ≠ id := fun flow mem same =>
      fresh (same ▸ sound.flowDrawn flow mem)
    exact
      { sound with
        flowIds := by
          change ((s.flows ++ [_]).map LoginFlow.id).Nodup
          rw [List.map_append, List.nodup_append]
          refine ⟨sound.flowIds, List.nodup_singleton _, fun a first b second same => ?_⟩
          obtain ⟨flow, mem, rfl⟩ := List.mem_map.mp first
          obtain rfl := List.mem_singleton.mp second
          exact unused flow mem same
        flowDrawn := fun flow mem => by
          rcases List.mem_append.mp mem with mem | mem
          · exact List.mem_cons_of_mem _ (sound.flowDrawn flow mem)
          · obtain rfl := List.mem_singleton.mp mem
            exact List.mem_cons_self
        flowFew := by
          change (s.flows ++ [_]).length ≤ 128
          rw [List.length_append, List.length_singleton]
          omega
        consumedDrawn := fun x mem => List.mem_cons_of_mem _ (sound.consumedDrawn x mem)
        consumedGone := fun x mem flow inside => by
          rcases List.mem_append.mp inside with inside | inside
          · exact sound.consumedGone x mem flow inside
          · obtain rfl := List.mem_singleton.mp inside
            intro same
            have same : id = x.1.id := same
            exact fresh (same ▸ sound.consumedDrawn x mem)
        drawn := fun r mem => List.mem_cons_of_mem _ (sound.drawn r mem)
        removedDrawn := fun id mem => List.mem_cons_of_mem _ (sound.removedDrawn id mem)
        free := fun f record is =>
          have was := sound.free f record is
          ⟨List.mem_cons_of_mem _ was.drawn, was.absent, was.kept⟩ }

theorem State.Sound.callback {f : Nat} {flow previous : Option String} {now : Int}
    (sound : s.Sound o) : (s.callback f flow previous now).Sound o := by
  unfold State.callback
  split
  · next id =>
      have kept := sound.keepFlows fun flow : LoginFlow => !(flow.id == id)
      dsimp only
      split
      · next flow found =>
          split_ifs with late
          · exact kept.over f
          · have mem := List.mem_of_find?_eq_some found
            have is := List.find?_some found
            have named : flow.id = id := eq_of_beq is
            refine State.Sound.move ?_ trivial fun record is => by cases is
            exact
              { kept with
                consumedOnce := by
                  change (flow.id :: s.consumed.map fun x => x.1.id).Nodup
                  rw [List.nodup_cons]
                  refine ⟨fun used => ?_, sound.consumedOnce⟩
                  obtain ⟨x, inside, same⟩ := List.mem_map.mp used
                  exact sound.consumedGone x inside flow mem same.symm
                consumedDrawn := fun x inside => by
                  rcases List.mem_cons.mp inside with rfl | inside
                  · exact sound.flowDrawn flow mem
                  · exact sound.consumedDrawn x inside
                consumedGone := fun x inside other stays => by
                  obtain ⟨stays, unlike⟩ := List.mem_filter.mp stays
                  rcases List.mem_cons.mp inside with rfl | inside
                  · intro same
                    rw [same, named, beq_self_eq_true] at unlike
                    cases unlike
                  · exact sound.consumedGone x inside other stays
                consumedLive := fun x inside => by
                  rcases List.mem_cons.mp inside with rfl | inside
                  · exact Int.not_le.mp late
                  · exact sound.consumedLive x inside
                free := fun g record is =>
                  have was := sound.free g record is
                  ⟨was.drawn, was.absent, was.kept⟩ }
      · exact kept.over f
  · exact sound.over f

theorem State.Sound.logout {cookie : Option String} {csrf : String} (sound : s.Sound o) :
    (s.logout cookie csrf).Sound o := by
  unfold State.logout
  split
  · split
    · split_ifs
      · exact sound.deleteAll _
      · exact sound
    · exact sound
  · exact sound

theorem State.Sound.step {e : Event} (sound : s.Sound o) (taken : s.step o e = some t) :
    t.Sound o := by
  cases e with
  | login id now =>
      obtain ⟨fresh, rfl⟩ := (Option.ite_none_left_eq_some.mp taken).imp_right Option.some.inj
      rw [Bool.or_eq_true, not_or, List.contains_iff_mem] at fresh
      exact (sound.cleanup now).login fresh.2
  | callback f flow previous now =>
      obtain ⟨-, rfl⟩ := (Option.ite_none_left_eq_some.mp taken).imp_right Option.some.inj
      exact (sound.cleanup now).callback
  | logout cookie csrf now =>
      obtain ⟨-, rfl⟩ := (Option.ite_none_left_eq_some.mp taken).imp_right Option.some.inj
      exact (sound.cleanup now).logout
  | session f cookie now =>
      obtain ⟨-, rfl⟩ := (Option.ite_none_right_eq_some.mp taken).imp_right Option.some.inj
      unfold State.session
      split
      · exact (sound.cleanup now).verify now fun previous => nofun
      · exact (sound.cleanup now).over f
  | run f id actor now =>
      obtain ⟨-, rfl⟩ := (Option.ite_none_right_eq_some.mp taken).imp_right Option.some.inj
      exact sound.assertCurrentActor now fun previous => nofun
  | assert f id actor now =>
      obtain ⟨-, rfl⟩ := (Option.ite_none_right_eq_some.mp taken).imp_right Option.some.inj
      exact sound.assertCurrentActor now fun previous => nofun
  | answer f a now id csrf => exact sound.answer taken
  | close =>
      obtain rfl := Option.some.inj taken
      have removed := (sound.keepFlows fun _ => false).deleteAll fun _ => true
      refine { removed with
        flowIds := ?_, flowDrawn := ?_, flowFew := ?_, consumedGone := ?_, free := ?_ }
      · exact List.nodup_nil
      · exact fun flow mem => by cases mem
      · exact Nat.zero_le _
      · exact fun x mem flow inside => by cases inside
      · exact fun f record is =>
          have was := removed.free f record is
          ⟨was.drawn, was.absent, was.kept⟩

theorem State.Sound.run {events : List Event}
    (taken : Machine.run (State.step o) State.new events = some s) : s.Sound o :=
  Machine.run_keeps (fun _ _ _ sound taken => sound.step taken) State.Sound.new taken

/-! ## What is accepted -/

@[simp] theorem State.set_accepted (s : State) (f : Nat) (stage : Stage) :
    (s.set f stage).accepted = s.accepted :=
  rfl

@[simp] theorem State.fail_accepted (s : State) (f : Nat) (p : Purpose) (record : SessionRecord)
    (unavailable : Bool) : (s.fail f p record unavailable).accepted = s.accepted := by
  unfold State.fail
  split
  · split_ifs <;> rfl
  · rfl

@[simp] theorem State.verify_accepted (s : State) (f : Nat) (p : Purpose) (record : SessionRecord)
    (now : Int) : (s.verify f p record now).accepted = s.accepted := by
  unfold State.verify
  split_ifs
  · exact s.fail_accepted f p record false
  · rfl

@[simp] theorem State.assertCurrentActor_accepted (s : State) (f : Nat) (p : Purpose) (id : String)
    (actor : Actor) (now : Int) :
    (s.assertCurrentActor f p id actor now).accepted = s.accepted := by
  unfold State.assertCurrentActor
  split
  · split_ifs
    · exact s.verify_accepted f p _ now
    · rfl
  · rfl

@[simp] theorem State.login_accepted (s : State) (id : String) (now : Int) :
    (s.login id now).accepted = s.accepted := by
  unfold State.login
  split_ifs <;> rfl

@[simp] theorem State.callback_accepted (s : State) (f : Nat) (flow previous : Option String)
    (now : Int) : (s.callback f flow previous now).accepted = s.accepted := by
  unfold State.callback
  split
  · dsimp only
    split
    · split_ifs <;> rfl
    · rfl
  · rfl

@[simp] theorem State.logout_accepted (s : State) (cookie : Option String) (csrf : String) :
    (s.logout cookie csrf).accepted = s.accepted := by
  unfold State.logout
  split
  · split
    · split_ifs <;> rfl
    · rfl
  · rfl

@[simp] theorem State.session_accepted (s : State) (f : Nat) (cookie : Option String) (now : Int) :
    (s.session f cookie now).accepted = s.accepted := by
  unfold State.session
  split
  · exact s.verify_accepted f _ _ now
  · rfl

/-- A verification that passes accepts its record at most. -/
theorem State.pass_accepted {f : Nat} {p : Purpose} {record : SessionRecord}
    {since : List Answered} {a : Accepted} (mem : a ∈ (s.pass f p record since).accepted) :
    a ∈ s.accepted ∨ a.session = false ∨
      p = .session ∧ a = ⟨true, record.id, s.removed.contains record.id⟩ := by
  unfold State.pass at mem
  split at mem
  · split_ifs at mem
    · exact .inl mem
    · dsimp only at mem
      split at mem <;> exact .inl mem
  · rcases List.mem_cons.mp mem with rfl | mem
    · exact .inr (.inr ⟨rfl, rfl⟩)
    · exact .inl mem
  · split_ifs at mem
    · rcases List.mem_cons.mp mem with rfl | mem
      · exact .inr (.inl rfl)
      · exact .inl mem
    · exact .inl mem
  · exact .inl mem
  · split_ifs at mem
    · rcases List.mem_cons.mp mem with rfl | mem
      · exact .inr (.inl rfl)
      · exact .inl mem
    · exact .inl mem

theorem State.answer_accepted {f : Nat} {answer : Answer} {now : Int} {id csrf : String}
    {a : Accepted} (taken : s.answer o f answer now id csrf = some t) (mem : a ∈ t.accepted) :
    a ∈ s.accepted ∨ a.session = false ∨
      ∃ record, s.returns o (.answer f answer now id csrf) = some record ∧
        a = ⟨true, record.id, s.removed.contains record.id⟩ := by
  unfold State.answer at taken
  split at taken
  case h_1 previous claims =>
    split at taken
    · split_ifs at taken <;> obtain rfl := Option.some.inj taken <;> exact .inl mem
    · obtain rfl := Option.some.inj taken
      exact .inl mem
  case h_2 previous claims actor at_ =>
    split at taken
    · dsimp only at taken
      split_ifs at taken
      · obtain rfl := Option.some.inj taken
        rw [State.verify_accepted] at mem
        exact .inl mem
      · obtain rfl := Option.some.inj taken
        exact .inl mem
    · obtain rfl := Option.some.inj taken
      exact .inl mem
  case h_3 p record actor at_ =>
    obtain rfl := Option.some.inj taken
    split_ifs at mem
    · exact .inl mem
    · rw [State.fail_accepted] at mem
      exact .inl mem
  case h_4 p record since version at_ =>
    obtain rfl := Option.some.inj taken
    split_ifs at mem
    · rw [State.fail_accepted] at mem
      exact .inl mem
    · exact .inl mem
  case h_6 p record version since actor at_ =>
    obtain rfl := Option.some.inj taken
    split_ifs at mem with current
    · split at mem
      · next confirmed is =>
          rcases State.pass_accepted mem with was | asserts | ⟨rfl, same⟩
          · exact .inl was
          · exact .inr (.inl asserts)
          · refine .inr (.inr ⟨confirmed, ?_, same⟩)
            simp only [State.returns, at_]
            rw [if_pos current, is]
      · rw [State.fail_accepted] at mem
        exact .inl mem
    · rw [State.fail_accepted] at mem
      exact .inl mem
  case h_7 id' actor at_ =>
    obtain rfl := Option.some.inj taken
    rw [State.assertCurrentActor_accepted] at mem
    exact .inl mem
  case h_5 | h_8 | h_9 =>
    obtain rfl := Option.some.inj taken
    rw [State.fail_accepted] at mem
    exact .inl mem
  case h_10 | h_11 | h_12 =>
    obtain rfl := Option.some.inj taken
    exact .inl mem
  case h_13 => cases taken

/-- A step accepts a session that is not stored only where `session` returns it. -/
theorem State.step_accepted {e : Event} (taken : s.step o e = some t) {a : Accepted}
    (mem : a ∈ t.accepted) :
    a ∈ s.accepted ∨ a.session = false ∨ ∃ record, s.returns o e = some record ∧
      a = ⟨true, record.id, s.removed.contains record.id⟩ := by
  cases e with
  | answer f answer now id csrf => exact State.answer_accepted taken mem
  | close =>
      obtain rfl := Option.some.inj taken
      exact .inl mem
  | login | callback | logout =>
      obtain ⟨-, rfl⟩ := (Option.ite_none_left_eq_some.mp taken).imp_right Option.some.inj
      simp only [login_accepted, callback_accepted, logout_accepted] at mem
      exact .inl mem
  | session | run | assert =>
      obtain ⟨-, rfl⟩ := (Option.ite_none_right_eq_some.mp taken).imp_right Option.some.inj
      simp only [session_accepted, assertCurrentActor_accepted] at mem
      exact .inl mem

/-- No session that was accepted had been removed. -/
def State.Kept (s : State) : Prop := ∀ a ∈ s.accepted, a.removed = false

theorem State.Kept.step {e : Event} (kept : s.Kept) (sound : s.Sound o)
    (undisturbed : Undisturbed o s e) (taken : s.step o e = some t) : t.Kept := by
  intro a mem
  rcases State.step_accepted taken mem with was | asserts | ⟨record, returns, rfl⟩
  · exact kept a was
  · exact (sound.step taken).accepted a mem asserts
  · have stored := State.holds_some (undisturbed record returns)
    exact Bool.eq_false_iff.mpr fun has => sound.gone record stored (List.contains_iff_mem.mp has)

theorem State.Sound.safe (sound : s.Sound o) (kept : s.Kept) : s.Safe o where
  flows := sound.flowFew
  sessions := sound.few
  once := sound.consumedOnce
  live := sound.consumedLive
  returned := sound.returned
  removed id mem := by
    cases found : s.find id with
    | none => rfl
    | some record =>
        obtain ⟨stored, rfl⟩ := State.find_some found
        exact absurd mem (sound.gone record stored)
  accepted := kept

/-! ## Runs -/

namespace Demo

def options : Options := ⟨"https://issuer", 900000, true⟩

def alice : Actor := ⟨"org", "alice", .human⟩

def claims : Claims := ⟨"https://issuer", some "alice", some 10000, none⟩

/-- The answers that a verification accepts. -/
def accepting (f : Nat) (now : Int) : List Event :=
  [.answer f (.actor (some alice)) now "" "", .answer f (.info (some (.number 7))) now "" "",
    .answer f (.actor (some alice)) now "" ""]

/-- A login up to its session. -/
def loggedIn : List Event :=
  [.login "flow" 0, .callback 0 (some "flow") none 10, .answer 0 (.tokens (some claims)) 20 "" "",
    .answer 0 (.actor (some alice)) 30 "session" "csrf"] ++ accepting 0 40

/-- A logout while the session is being shown. -/
def raced : List Event :=
  loggedIn ++ [.session 1 (some "session") 50, .answer 1 (.actor (some alice)) 60 "" "",
    .answer 1 (.info (some (.number 7))) 60 "" "", .logout (some "session") "csrf" 70,
    .answer 1 (.actor (some alice)) 80 "" ""]

end Demo

end Knowledger.Oidc
