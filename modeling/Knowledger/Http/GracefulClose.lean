import Knowledger.Lib.Machine

/-!
# Closing an HTTP server

`waitForServerClose` as a machine: the server's callbacks, the timers and the continuations of
the two bounded waits are its events, each run to its end, in any order.  A server calls back from
the event loop and never inside a call to it, and the promises that are awaited never reject.
`waitForServerClose_truthful` says that every run settles once, and what each outcome means.
-/

namespace Knowledger.Http

variable {E : Type}

/-! ## State -/

/-- What the promise settles with. -/
inductive Settlement (E : Type)
  | closed
  | forced (connections : Int)
  | abandoned (connections remaining : Int) (lateClose : Bool)
  | rejected (error : E)

/-- What is written to the diagnostics. -/
inductive Diagnostic (E : Type)
  | forcedRelease (connections : Int)
  | lateClose (error : Option E)
  | sweepFailed (error : E)

/-- The promise of a connection count. -/
inductive Counting
  | undefined
  | waiting
  | counted
  deriving DecidableEq

/-- A bounded wait and what its continuation has at hand. -/
inductive Wait (α : Type)
  | idle
  | racing (a : α)
  | done

/-- The count that the abandonment reads at last. -/
inductive Lookup
  | idle
  | asking
  | found (remaining : Int)
  | reported

/-- The close callback, and what had happened when it came. -/
structure Arrival (E : Type) where
  error : Option E
  released : Bool
  abandoned : Bool
  settled : Bool

/-- The variables of the promise, the timers that are armed, and what the outside has seen: how
often `closeAllConnections` was called, the callback, the diagnostics and the settlements. -/
structure State (E : Type) where
  isSettled : Bool
  isForced : Bool
  hasAbandoned : Bool
  hasCloseArrived : Bool
  hasLateClose : Bool
  connections : Int
  pendingCount : Counting
  closeError : Option E
  forceTimer : Bool
  abandonTimer : Bool
  closeWait : Wait (Option E)
  closeBound : Bool
  abandonWait : Wait Unit
  abandonBound : Bool
  lookup : Lookup
  lookupTimer : Bool
  releases : Nat
  arrival : Option (Arrival E)
  diagnostics : List (Diagnostic E)
  outcomes : List (Settlement E)

def unknownConnectionCount : Int := -1

namespace State

variable (s : State E)

/-- A call of `resolve` or `reject`; the first one counts. -/
def settle (outcome : Settlement E) : State E := { s with outcomes := s.outcomes ++ [outcome] }

def report (diagnostic : Diagnostic E) : State E :=
  { s with diagnostics := s.diagnostics ++ [diagnostic] }

def clearTimers : State E :=
  { s with
    forceTimer := false
    abandonTimer := false
    closeBound := false
    abandonBound := false
    lookupTimer := false }

/-- The only way out: settles once and clears the timers. -/
def finish (settle : State E → State E) : State E :=
  if s.isSettled then s else settle { s.clearTimers with isSettled := true }

/-- The call of `closeAllConnections`, with the count asked for before. -/
def release : State E :=
  { s with isForced := true, pendingCount := .waiting, releases := s.releases + 1 }

/-- What follows a release that threw or returned. -/
def afterRelease (thrown : Option E) (next : State E → State E) : State E :=
  match thrown with
  | some error => s.finish fun s => s.settle (.rejected error)
  | none => next s

def forceFires (thrown : Option E) : State E :=
  ({ s with forceTimer := false }.release).afterRelease thrown id

def startAbandonWait : State E := { s with abandonWait := .racing (), abandonBound := true }

/-- The abandonment is recorded first, and the force timer cleared. -/
def abandon : State E :=
  { s with abandonTimer := false, hasAbandoned := true, forceTimer := false }

def abandonFires (thrown : Option E) : State E :=
  if s.abandon.pendingCount = .undefined then
    s.abandon.release.afterRelease thrown startAbandonWait
  else s.abandon.startAbandonWait

/-- The settlement by the callback that brought `error`. -/
def settleClose (error : Option E) : State E :=
  if s.isSettled then s
  else
    match error with
    | some error =>
      let s := if s.isForced then s.report (.forcedRelease s.connections) else s
      s.finish fun s => s.settle (.rejected error)
    | none =>
      s.finish fun s => s.settle (if s.isForced then .forced s.connections else .closed)

/-- The callback's error is written down first. -/
def arrive (error : Option E) : State E :=
  { s with
    closeError := error
    arrival := some ⟨error, s.isForced, s.hasAbandoned, s.isSettled⟩ }

def awaitCount (error : Option E) : State E :=
  { s with closeWait := .racing error, closeBound := true }

def closeCallback (error : Option E) : State E :=
  let t := s.arrive error
  if s.isSettled then t.report (.lateClose error)
  else if s.hasAbandoned then { t with hasLateClose := t.hasLateClose || error.isNone }
  else
    let t := { t with hasCloseArrived := true }
    if s.isForced ∧ s.pendingCount ≠ .undefined then t.awaitCount error
    else t.settleClose error

/-- The answer of `getConnections`; `none` is an error. -/
def countOf : Option Nat → Int
  | some count => count
  | none => unknownConnectionCount

def counted (count : Option Nat) : State E :=
  { s with connections := countOf count, pendingCount := .counted }

def closeWaitEnds (error : Option E) : State E :=
  { s with closeWait := .done, closeBound := false }.settleClose error

def abandonWaitEnds : State E :=
  let s := { s with abandonWait := .done, abandonBound := false }
  if s.isSettled ∨ s.closeError.isSome ∨ s.hasCloseArrived then
    { s with lookup := .found unknownConnectionCount }
  else { s with lookup := .asking, lookupTimer := true }

def lookedUp (remaining : Int) : State E :=
  { s with lookup := .found remaining, lookupTimer := false }

def abandonEnds (remaining : Int) : State E :=
  { s with lookup := .reported }.finish fun s =>
    match s.closeError with
    | some error => (s.report (.forcedRelease s.connections)).settle (.rejected error)
    | none =>
      if s.hasCloseArrived then s.settle (.forced s.connections)
      else s.settle (.abandoned s.connections remaining s.hasLateClose)

end State

/-! ## Events -/

inductive Event (E : Type)
  | forceTimer (thrown : Option E)
  | abandonTimer (thrown : Option E)
  | close (error : Option E)
  | counted (count : Option Nat)
  | closeWait
  | abandonWait
  | lookedUp (count : Option Nat)
  | lookupTimer
  | abandonEnd

/-- The promise as the executor leaves it; `server.close` or `closeIdleConnections` may throw. -/
def start (closeThrows sweepThrows : Option E) : State E :=
  let s : State E := {
    isSettled := false
    isForced := false
    hasAbandoned := false
    hasCloseArrived := false
    hasLateClose := false
    connections := unknownConnectionCount
    pendingCount := .undefined
    closeError := none
    forceTimer := true
    abandonTimer := true
    closeWait := .idle
    closeBound := false
    abandonWait := .idle
    abandonBound := false
    lookup := .idle
    lookupTimer := false
    releases := 0
    arrival := none
    diagnostics := []
    outcomes := [] }
  match closeThrows, sweepThrows with
  | some error, _ => s.finish fun s => s.settle (.rejected error)
  | none, some error => s.report (.sweepFailed error)
  | none, none => s

/-- A bounded wait ends when its timer fires or the count is there. -/
def step (s : State E) : Event E → Option (State E)
  | .forceTimer thrown => if s.forceTimer then some (s.forceFires thrown) else none
  | .abandonTimer thrown => if s.abandonTimer then some (s.abandonFires thrown) else none
  | .close error => if s.arrival.isNone then some (s.closeCallback error) else none
  | .counted count => if s.pendingCount = .waiting then some (s.counted count) else none
  | .closeWait =>
    match s.closeWait with
    | .racing error =>
      if s.closeBound ∨ s.pendingCount = .counted then some (s.closeWaitEnds error) else none
    | _ => none
  | .abandonWait =>
    match s.abandonWait with
    | .racing () =>
      if s.abandonBound ∨ s.pendingCount = .counted then some s.abandonWaitEnds else none
    | _ => none
  | .lookedUp count =>
    match s.lookup with
    | .asking => some (s.lookedUp (State.countOf count))
    | _ => none
  | .lookupTimer =>
    match s.lookup with
    | .asking => if s.lookupTimer then some (s.lookedUp unknownConnectionCount) else none
    | _ => none
  | .abandonEnd =>
    match s.lookup with
    | .found remaining => some (s.abandonEnds remaining)
    | _ => none

/-- The timers and continuations of the program itself; a server may leave the others out. -/
def Event.own : Event E → Bool
  | .forceTimer _ => true
  | .abandonTimer _ => true
  | .close _ => false
  | .counted _ => false
  | .closeWait => true
  | .abandonWait => true
  | .lookedUp _ => false
  | .lookupTimer => true
  | .abandonEnd => true

/-! ## Invariant -/

/-- What an outcome says about the close callback. -/
def Truthful (s : State E) : Settlement E → Prop
  | .closed => ∃ a, s.arrival = some a ∧ a.released = false ∧ a.error = none
  | .forced _ => ∃ a, s.arrival = some a ∧ a.released = true ∧ a.abandoned = false ∧ a.error = none
  | .abandoned _ _ _ => s.hasAbandoned = true ∧ ∀ a, s.arrival = some a →
      a.abandoned = true ∧ (a.settled = false → a.error = none)
  | .rejected error => ∀ a, s.arrival = some a → a.settled = false → ∀ reported,
      a.error = some reported → reported = error

/-- The parts of the state that the settlement depends on, as long as there is none. -/
structure Pending (s : State E) : Prop where
  outcomes : s.outcomes = []
  abandonTimer : s.abandonTimer = !s.hasAbandoned
  abandonWork : s.hasAbandoned = true → (s.abandonWait = .racing () ∧ s.abandonBound = true) ∨
    (s.lookup = .asking ∧ s.lookupTimer = true) ∨ ∃ remaining, s.lookup = .found remaining
  closeError : s.closeError = s.arrival.bind Arrival.error
  noArrival : s.arrival = none → s.hasCloseArrived = false
  arrived : ∀ a, s.arrival = some a → a.settled = false ∧
    (a.abandoned = true ∧ s.hasAbandoned = true ∧ s.hasCloseArrived = false ∨
      a.abandoned = false ∧ a.released = true ∧ s.isForced = true ∧ s.hasCloseArrived = true)

structure Settled (s : State E) : Prop where
  outcome : ∃ o, s.outcomes = [o] ∧ Truthful s o
  forceTimer : s.forceTimer = false
  abandonTimer : s.abandonTimer = false

/-- What holds before and after the settlement. -/
structure Steady (s : State E) : Prop where
  releases : s.releases = if s.isForced then 1 else 0
  forced : s.pendingCount = .undefined ↔ s.isForced = false
  racing : ∀ error, s.closeWait = .racing error →
    s.isForced = true ∧ ∃ a, s.arrival = some a ∧ a.error = error ∧ a.settled = false ∧
      a.abandoned = false ∧ a.released = true
  fired : s.abandonWait ≠ .idle ∨ s.lookup ≠ .idle → s.hasAbandoned = true

structure Safe (s : State E) : Prop extends Steady s where
  forceTimer : s.forceTimer = true → s.isForced = false ∧ s.hasAbandoned = false
  pending : s.isSettled = false → Pending s
  settled : s.isSettled = true → Settled s

theorem start_safe (closeThrows sweepThrows : Option E) : Safe (start closeThrows sweepThrows) := by
  rcases closeThrows with - | e <;> rcases sweepThrows with - | f
  all_goals constructor <;> try constructor
  all_goals simp [start, State.finish, State.settle, State.clearTimers, State.report]
  all_goals constructor <;> simp [Truthful]

section

variable {s : State E}

theorem Safe.unsettled (safe : Safe s) (armed : s.forceTimer = true ∨ s.abandonTimer = true) :
    s.isSettled = false := by
  rcases settled : s.isSettled with - | -
  · rfl
  · obtain ⟨-, force, abandon⟩ := safe.settled settled
    rcases armed with armed | armed
    · rw [force] at armed
      cases armed
    · rw [abandon] at armed
      cases armed

/-- An unsettled state is safe when what is still to come is there. -/
theorem Safe.live (steady : Steady s) (live : s.isSettled = false) (pending : Pending s)
    (forceTimer : s.forceTimer = true → s.isForced = false ∧ s.hasAbandoned = false) : Safe s where
  toSteady := steady
  forceTimer := forceTimer
  pending _ := pending
  settled done := by
    rw [live] at done
    cases done

/-- Settling an unsettled state makes it safe when the outcome is truthful. -/
theorem Steady.finish (steady : Steady s) (live : s.isSettled = false) (empty : s.outcomes = [])
    (outcome : Settlement E) (truthful : Truthful s outcome) {settle : State E → State E}
    (settles : ∃ diagnostics, settle { s.clearTimers with isSettled := true } =
      { s.clearTimers with
        isSettled := true
        outcomes := s.outcomes ++ [outcome]
        diagnostics }) : Safe (s.finish settle) := by
  obtain ⟨diagnostics, settles⟩ := settles
  rw [State.finish, live, if_neg Bool.false_ne_true, settles, empty, List.nil_append]
  exact
    { releases := steady.releases
      forced := steady.forced
      racing := steady.racing
      fired := steady.fired
      forceTimer := fun armed => by cases armed
      pending := fun unsettled => by cases unsettled
      settled := fun _ => ⟨⟨outcome, rfl, truthful⟩, rfl, rfl⟩ }

theorem Steady.release (steady : Steady s) (notForced : s.isForced = false) : Steady s.release where
  releases := by
    have none := steady.releases
    rw [notForced] at none
    change s.releases + 1 = 1
    rw [none]
    rfl
  forced := by
    constructor <;> intro absurd <;> cases absurd
  racing error waits := by
    have released := (steady.racing error waits).1
    rw [notForced] at released
    cases released
  fired := steady.fired

theorem Steady.startAbandonWait (steady : Steady s) (fired : s.hasAbandoned = true) :
    Steady s.startAbandonWait :=
  ⟨steady.releases, steady.forced, steady.racing, fun _ => fired⟩

/-- Without an answer of the server, a thrown error is what the promise is rejected with. -/
theorem Steady.afterRelease (steady : Steady s) (live : s.isSettled = false)
    (empty : s.outcomes = []) (quiet : s.arrival = none) {next : State E → State E}
    (nextSafe : Safe (next s)) (thrown : Option E) : Safe (s.afterRelease thrown next) := by
  rcases thrown with - | error
  · exact nextSafe
  · change Safe (s.finish fun s => s.settle (.rejected error))
    apply steady.finish live empty (.rejected error)
    · intro a came
      rw [quiet] at came
      cases came
    · exact ⟨s.diagnostics, rfl⟩

/-- A callback settles at once unless a release or the abandonment has come before it. -/
theorem Pending.unreleased (pending : Pending s) (notForced : s.isForced = false)
    (notAbandoned : s.hasAbandoned = false) : s.arrival = none := by
  rcases came : s.arrival with - | a
  · rfl
  · obtain ⟨-, ⟨-, abandoned, -⟩ | ⟨-, -, forced, -⟩⟩ := pending.arrived a came
    · rw [notAbandoned] at abandoned
      cases abandoned
    · rw [notForced] at forced
      cases forced

theorem forceFires_safe (safe : Safe s) (armed : s.forceTimer = true) (thrown : Option E) :
    Safe (s.forceFires thrown) := by
  obtain ⟨notForced, notAbandoned⟩ := safe.forceTimer armed
  have live := safe.unsettled (Or.inl armed)
  have pending := safe.pending live
  have quiet := pending.unreleased notForced notAbandoned
  have steady : Steady { s with forceTimer := false } := { safe.toSteady with }
  have released := steady.release notForced
  refine released.afterRelease live pending.outcomes quiet ?_ thrown
  apply Safe.live released live
  · exact
      { pending with
        arrived := fun a came => by
          cases quiet.symm.trans came }
  · intro stillArmed
    cases stillArmed

theorem Pending.notAbandoned (pending : Pending s) (armed : s.abandonTimer = true) :
    s.hasAbandoned = false := by
  have timer := pending.abandonTimer
  rw [armed] at timer
  simpa using timer.symm

theorem abandonFires_safe (safe : Safe s) (armed : s.abandonTimer = true) (thrown : Option E) :
    Safe (s.abandonFires thrown) := by
  have live := safe.unsettled (Or.inr armed)
  have pending := safe.pending live
  have notAbandoned := pending.notAbandoned armed
  have steady : Steady s.abandon := { safe.toSteady with fired := fun _ => rfl }
  rw [State.abandonFires]
  split_ifs with unforced
  · have notForced := safe.forced.mp unforced
    have quiet := pending.unreleased notForced notAbandoned
    have released := steady.release notForced
    refine released.afterRelease live pending.outcomes quiet ?_ thrown
    apply Safe.live (released.startAbandonWait rfl) live
    · exact
        { pending with
          abandonTimer := rfl
          abandonWork := fun _ => Or.inl ⟨rfl, rfl⟩
          arrived := fun a came => by
            cases quiet.symm.trans came }
    · intro stillArmed
      cases stillArmed
  · apply Safe.live (steady.startAbandonWait rfl) live
    · exact
        { pending with
          abandonTimer := rfl
          abandonWork := fun _ => Or.inl ⟨rfl, rfl⟩
          arrived := fun a came => by
            obtain ⟨early, ⟨-, abandoned, -⟩ | before⟩ := pending.arrived a came
            · rw [notAbandoned] at abandoned
              cases abandoned
            · exact ⟨early, Or.inr before⟩ }
    · intro stillArmed
      cases stillArmed

/-- The settlement by a callback that came before the abandonment. -/
theorem Steady.settleClose (steady : Steady s) {a : Arrival E} (came : s.arrival = some a)
    (before : a.abandoned = false) (released : a.released = s.isForced)
    (pending : s.isSettled = false → s.outcomes = []) (settled : s.isSettled = true → Safe s) :
    Safe (s.settleClose a.error) := by
  unfold State.settleClose
  by_cases done : s.isSettled = true
  · rw [if_pos done]
    exact settled done
  · have live : s.isSettled = false := by simpa using done
    rw [if_neg done]
    rcases error : a.error with - | e
    · by_cases forced : s.isForced = true
      · apply steady.finish live (pending live) (.forced s.connections)
        · exact ⟨a, came, released.trans forced, before, error⟩
        · exact ⟨s.diagnostics, by simp [State.settle, State.clearTimers, forced]⟩
      · have unforced : s.isForced = false := by simpa using forced
        apply steady.finish live (pending live) .closed
        · exact ⟨a, came, released.trans unforced, error⟩
        · exact ⟨s.diagnostics, by simp [State.settle, State.clearTimers, unforced]⟩
    · have truthful : Truthful s (.rejected e) := by
        intro b cameB _ reported is
        cases came.symm.trans cameB
        exact Option.some.inj (is.symm.trans error)
      dsimp only
      split_ifs
      · have reported : Steady (s.report (.forcedRelease s.connections)) := { steady with }
        apply reported.finish live (pending live) (.rejected e) truthful
        exact ⟨_, rfl⟩
      · apply steady.finish live (pending live) (.rejected e) truthful
        exact ⟨s.diagnostics, rfl⟩

/-- A callback that comes after the settlement changes nothing about its outcome. -/
theorem Truthful.arrive {outcome : Settlement E} (truthful : Truthful s outcome)
    (first : s.arrival = none) (done : s.isSettled = true) (error : Option E) :
    Truthful (s.arrive error) outcome := by
  rcases outcome with - | connections | ⟨connections, remaining, lateClose⟩ | reported
  · obtain ⟨b, before, -⟩ := truthful
    cases first.symm.trans before
  · obtain ⟨b, before, -⟩ := truthful
    cases first.symm.trans before
  · obtain ⟨fired, -⟩ := truthful
    refine ⟨fired, fun a came => ?_⟩
    cases came
    exact ⟨fired, fun early => by cases done.symm.trans early⟩
  · intro a came early
    cases came
    cases done.symm.trans early

theorem Steady.arrive (steady : Steady s) (first : s.arrival = none) (error : Option E) :
    Steady (s.arrive error) where
  releases := steady.releases
  forced := steady.forced
  racing e waits := by
    obtain ⟨-, a, came, -⟩ := steady.racing e waits
    cases first.symm.trans came
  fired := steady.fired

theorem closeCallback_safe (safe : Safe s) (first : s.arrival = none) (error : Option E) :
    Safe (s.closeCallback error) := by
  have steady := safe.toSteady.arrive first error
  unfold State.closeCallback
  by_cases done : s.isSettled = true
  · obtain ⟨⟨outcome, settled, truthful⟩, force, abandon⟩ := safe.settled done
    rw [if_pos done]
    exact
      { steady with
        forceTimer := safe.forceTimer
        pending := fun unsettled => by cases done.symm.trans unsettled
        settled := fun _ => ⟨⟨outcome, settled, truthful.arrive first done error⟩, force, abandon⟩ }
  have live : s.isSettled = false := by simpa using done
  have pending := safe.pending live
  rw [if_neg done]
  by_cases abandoned : s.hasAbandoned = true
  · rw [if_pos abandoned]
    refine Safe.live ?_ live ?_ safe.forceTimer
    · exact { steady with }
    · exact
        { pending with
          closeError := rfl
          noArrival := fun none => by cases none
          arrived := fun a came => by
            cases came
            exact ⟨live, Or.inl ⟨abandoned, abandoned, pending.noArrival first⟩⟩ }
  have before : s.hasAbandoned = false := by simpa using abandoned
  rw [if_neg abandoned]
  dsimp only
  split_ifs with released
  · refine Safe.live ?_ live ?_ safe.forceTimer
    · exact
        { releases := safe.releases
          forced := safe.forced
          racing := fun e waits => by
            cases waits
            exact ⟨released.1, _, rfl, rfl, live, before, released.1⟩
          fired := safe.fired }
    · exact
        { pending with
          closeError := rfl
          noArrival := fun none => by cases none
          arrived := fun a came => by
            cases came
            exact ⟨live, Or.inr ⟨before, released.1, released.1, rfl⟩⟩ }
  · have arrived : Steady { s.arrive error with hasCloseArrived := true } := { steady with }
    apply arrived.settleClose (a := ⟨error, s.isForced, s.hasAbandoned, s.isSettled⟩) rfl before rfl
    · exact fun _ => pending.outcomes
    · exact fun settled => absurd settled done

theorem counted_safe (safe : Safe s) (waiting : s.pendingCount = .waiting) (count : Option Nat) :
    Safe (s.counted count) where
  releases := safe.releases
  forced := by
    have released : ¬ s.isForced = false := by
      rw [← safe.forced, waiting]
      simp
    constructor
    · intro none
      cases none
    · exact fun none => absurd none released
  racing := safe.racing
  fired := safe.fired
  forceTimer := safe.forceTimer
  pending unsettled := { safe.pending unsettled with }
  settled done := { safe.settled done with }

theorem closeWaitEnds_safe (safe : Safe s) {error : Option E} (waits : s.closeWait = .racing error) :
    Safe (s.closeWaitEnds error) := by
  obtain ⟨forced, a, came, rfl, early, before, released⟩ := safe.racing error waits
  have steady : Steady { s with closeWait := .done, closeBound := false } :=
    { safe.toSteady with
      racing := fun e waits => by cases waits }
  apply steady.settleClose came before (released.trans forced.symm)
  · exact fun unsettled => (safe.pending unsettled).outcomes
  · intro done
    exact
      { steady with
        forceTimer := safe.forceTimer
        pending := fun unsettled => by cases done.symm.trans unsettled
        settled := fun _ => { safe.settled done with } }

theorem abandonWaitEnds_safe (safe : Safe s) (waits : s.abandonWait = .racing ()) :
    Safe s.abandonWaitEnds := by
  have fired : s.hasAbandoned = true := safe.fired (Or.inl (by simp [waits]))
  unfold State.abandonWaitEnds
  dsimp only
  split_ifs with known
  · exact
      { safe.toSteady with
        fired := fun _ => fired
        forceTimer := safe.forceTimer
        pending := fun unsettled =>
          { safe.pending unsettled with
            abandonWork := fun _ => Or.inr (Or.inr ⟨_, rfl⟩) }
        settled := fun done => { safe.settled done with } }
  · exact
      { safe.toSteady with
        fired := fun _ => fired
        forceTimer := safe.forceTimer
        pending := fun unsettled =>
          { safe.pending unsettled with
            abandonWork := fun _ => Or.inr (Or.inl ⟨rfl, rfl⟩) }
        settled := fun done => { safe.settled done with } }

theorem lookedUp_safe (safe : Safe s) (asking : s.lookup = .asking) (remaining : Int) :
    Safe (s.lookedUp remaining) :=
  { safe.toSteady with
    fired := fun _ => safe.fired (Or.inr (by simp [asking]))
    forceTimer := safe.forceTimer
    pending := fun unsettled =>
      { safe.pending unsettled with
        abandonWork := fun _ => Or.inr (Or.inr ⟨_, rfl⟩) }
    settled := fun done => { safe.settled done with } }

theorem abandonEnds_safe (safe : Safe s) {remaining : Int} (found : s.lookup = .found remaining) :
    Safe (s.abandonEnds remaining) := by
  have fired : s.hasAbandoned = true := safe.fired (Or.inr (by simp [found]))
  have steady : Steady { s with lookup := .reported } :=
    { safe.toSteady with fired := fun _ => fired }
  by_cases done : s.isSettled = true
  · unfold State.abandonEnds State.finish
    rw [if_pos done]
    exact
      { steady with
        forceTimer := safe.forceTimer
        pending := fun unsettled => by cases done.symm.trans unsettled
        settled := fun _ => { safe.settled done with } }
  have live : s.isSettled = false := by simpa using done
  have pending := safe.pending live
  rcases error : s.closeError with - | e
  · by_cases arrived : s.hasCloseArrived = true
    · apply steady.finish live pending.outcomes (.forced s.connections)
      · rcases came : s.arrival with - | a
        · cases (pending.noArrival came).symm.trans arrived
        · obtain ⟨-, ⟨-, -, missing⟩ | ⟨before, released, -⟩⟩ := pending.arrived a came
          · cases missing.symm.trans arrived
          · refine ⟨a, rfl, released, before, ?_⟩
            rw [pending.closeError, came] at error
            exact error
      · exact ⟨s.diagnostics, by simp [State.settle, State.clearTimers, error, arrived]⟩
    · have missing : s.hasCloseArrived = false := by simpa using arrived
      apply steady.finish live pending.outcomes
        (.abandoned s.connections remaining s.hasLateClose)
      · refine ⟨fired, fun a came => ?_⟩
        obtain ⟨-, ⟨late, -⟩ | ⟨-, -, -, arrived⟩⟩ := pending.arrived a came
        · refine ⟨late, fun _ => ?_⟩
          rw [pending.closeError, show s.arrival = some a from came] at error
          exact error
        · cases missing.symm.trans arrived
      · exact ⟨s.diagnostics, by simp [State.settle, State.clearTimers, error, missing]⟩
  · apply steady.finish live pending.outcomes (.rejected e)
    · intro a came _ reported is
      rw [pending.closeError, show s.arrival = some a from came] at error
      exact Option.some.inj (is.symm.trans error)
    · exact ⟨_, by
        simp only [State.clearTimers, error]
        rfl⟩

end

/-- What an event does, with what it found. -/
inductive Moves (s : State E) : State E → Prop
  | force (armed : s.forceTimer = true) (thrown : Option E) : Moves s (s.forceFires thrown)
  | abandon (armed : s.abandonTimer = true) (thrown : Option E) : Moves s (s.abandonFires thrown)
  | close (first : s.arrival = none) (error : Option E) : Moves s (s.closeCallback error)
  | counted (waiting : s.pendingCount = .waiting) (count : Option Nat) : Moves s (s.counted count)
  | closeWait {error : Option E} (waits : s.closeWait = .racing error) :
      Moves s (s.closeWaitEnds error)
  | abandonWait (waits : s.abandonWait = .racing ()) : Moves s s.abandonWaitEnds
  | lookedUp (asking : s.lookup = .asking) (remaining : Int) : Moves s (s.lookedUp remaining)
  | abandonEnd {remaining : Int} (found : s.lookup = .found remaining) :
      Moves s (s.abandonEnds remaining)

theorem step_moves {s t : State E} {e : Event E} (taken : step s e = some t) : Moves s t := by
  unfold step at taken
  split at taken
  next thrown =>
    split_ifs at taken with armed
    exact Option.some.inj taken ▸ .force armed thrown
  next thrown =>
    split_ifs at taken with armed
    exact Option.some.inj taken ▸ .abandon armed thrown
  next error =>
    split_ifs at taken with first
    exact Option.some.inj taken ▸ .close (Option.isNone_iff_eq_none.mp first) error
  next count =>
    split_ifs at taken with waiting
    exact Option.some.inj taken ▸ .counted waiting count
  next =>
    split at taken
    next error waits =>
      split_ifs at taken
      exact Option.some.inj taken ▸ .closeWait waits
    next => cases taken
  next =>
    split at taken
    next waits =>
      split_ifs at taken
      exact Option.some.inj taken ▸ .abandonWait waits
    next => cases taken
  next count =>
    split at taken
    next asking => exact Option.some.inj taken ▸ .lookedUp asking _
    next => cases taken
  next =>
    split at taken
    next asking =>
      split_ifs at taken
      exact Option.some.inj taken ▸ .lookedUp asking _
    next => cases taken
  next =>
    split at taken
    next remaining found => exact Option.some.inj taken ▸ .abandonEnd found
    next => cases taken

theorem step_safe {s t : State E} {e : Event E} (safe : Safe s) (taken : step s e = some t) :
    Safe t := by
  rcases step_moves taken with ⟨armed, thrown⟩ | ⟨armed, thrown⟩ | ⟨first, error⟩ |
    ⟨waiting, count⟩ | waits | waits | ⟨asking, remaining⟩ | found
  · exact forceFires_safe safe armed thrown
  · exact abandonFires_safe safe armed thrown
  · exact closeCallback_safe safe first error
  · exact counted_safe safe waiting count
  · exact closeWaitEnds_safe safe waits
  · exact abandonWaitEnds_safe safe waits
  · exact lookedUp_safe safe asking remaining
  · exact abandonEnds_safe safe found

/-! ## Every run ends -/

def Wait.left {α : Type} : Wait α → Nat
  | .idle => 1
  | .racing _ => 1
  | .done => 0

def Lookup.left : Lookup → Nat
  | .idle => 2
  | .asking => 2
  | .found _ => 1
  | .reported => 0

def Counting.left : Counting → Nat
  | .undefined => 1
  | .waiting => 1
  | .counted => 0

/-- A bound for the events to come. An event counts for more than those that it makes possible. -/
def State.left (s : State E) : Nat :=
  2 * s.forceTimer.toNat + 5 * s.abandonTimer.toNat + s.pendingCount.left +
    2 * s.arrival.isNone.toNat + s.closeWait.left + 3 * s.abandonWait.left + s.lookup.left

theorem Wait.left_le {α : Type} (w : Wait α) : w.left ≤ 1 := by
  cases w <;> simp [Wait.left]

theorem Lookup.left_le (l : Lookup) : l.left ≤ 2 := by
  cases l <;> simp [Lookup.left]

theorem Counting.left_le (c : Counting) : c.left ≤ 1 := by
  cases c <;> simp [Counting.left]

section

variable {s : State E}

theorem finish_left {settle : State E → State E} (keeps : ∀ t, (settle t).left = t.left) :
    (s.finish settle).left ≤ s.left := by
  unfold State.finish
  split_ifs
  · exact le_rfl
  · rw [keeps]
    simp only [State.left, State.clearTimers, Bool.toNat_false]
    omega

theorem settleClose_left (error : Option E) : (s.settleClose error).left ≤ s.left := by
  unfold State.settleClose
  by_cases done : s.isSettled = true
  · rw [if_pos done]
  · rw [if_neg done]
    rcases error with - | e
    · exact finish_left fun _ => rfl
    · by_cases forced : s.isForced = true
      · rw [if_pos forced]
        exact @finish_left _ (s.report _) _ fun _ => rfl
      · rw [if_neg forced]
        exact finish_left fun _ => rfl

theorem afterRelease_left {next : State E → State E} (thrown : Option E) {bound : Nat}
    (live : (next s).left < bound) (here : s.left < bound) :
    (s.afterRelease thrown next).left < bound := by
  rcases thrown with - | error
  · exact live
  · have settled : (s.finish fun s => s.settle (.rejected error)).left ≤ s.left :=
      finish_left fun _ => rfl
    exact Nat.lt_of_le_of_lt settled here

/-- Every event leaves less to come. -/
theorem step_left {t : State E} {e : Event E} (taken : step s e = some t) : t.left < s.left := by
  rcases step_moves taken with ⟨armed, thrown⟩ | ⟨armed, thrown⟩ | ⟨first, error⟩ |
    ⟨waiting, count⟩ | waits | waits | ⟨asking, remaining⟩ | found
  · have bound : ({ s with forceTimer := false } : State E).release.left < s.left := by
      simp only [State.left, State.release, armed, Bool.toNat_true, Bool.toNat_false, Counting.left]
      omega
    exact afterRelease_left thrown bound bound
  · have wait := Wait.left_le s.abandonWait
    have start : s.abandon.release.startAbandonWait.left < s.left := by
      simp only [State.left, State.release, State.abandon, State.startAbandonWait, armed,
        Bool.toNat_true, Bool.toNat_false, Counting.left, Wait.left]
      omega
    have here : s.abandon.release.left < s.left := by
      simp only [State.left, State.release, State.abandon, armed, Bool.toNat_true, Bool.toNat_false,
        Counting.left]
      omega
    unfold State.abandonFires
    split_ifs
    · exact afterRelease_left thrown start here
    · simp only [State.left, State.abandon, State.startAbandonWait, armed, Bool.toNat_true,
        Bool.toNat_false, Wait.left]
      omega
  · have wait := Wait.left_le s.closeWait
    have arrived : (s.arrive error).left + 1 < s.left := by
      simp only [State.left, State.arrive, first, Option.isNone_none, Option.isNone_some,
        Bool.toNat_true, Bool.toNat_false]
      omega
    unfold State.closeCallback
    dsimp only
    split_ifs
    · exact Nat.lt_of_succ_lt arrived
    · exact Nat.lt_of_succ_lt arrived
    · refine Nat.lt_of_le_of_lt ?_ arrived
      simp only [State.left, State.arrive, State.awaitCount, Wait.left]
      omega
    · exact Nat.lt_of_le_of_lt (settleClose_left _) (Nat.lt_of_succ_lt arrived)
  · simp only [State.left, State.counted, waiting, Counting.left]
    omega
  · refine Nat.lt_of_le_of_lt (settleClose_left _) ?_
    simp only [State.left, waits, Wait.left]
    omega
  · have lookup := Lookup.left_le s.lookup
    unfold State.abandonWaitEnds
    dsimp only
    split_ifs
    · simp only [State.left, waits, Wait.left, Lookup.left]
      omega
    · simp only [State.left, waits, Wait.left, Lookup.left]
      omega
  · simp only [State.left, State.lookedUp, asking, Lookup.left]
    omega
  · refine Nat.lt_of_le_of_lt (finish_left fun t => ?_) ?_
    · split
      · rfl
      · split_ifs <;> rfl
    · simp only [State.left, found, Lookup.left]
      omega

end

/-- The events of a run are counted by what they leave. -/
theorem run_left {s t : State E} {events : List (Event E)}
    (run : Machine.run step s events = some t) : t.left + events.length ≤ s.left := by
  induction events generalizing s with
  | nil =>
      cases run
      simp
  | cons e events ih =>
      obtain ⟨u, taken, rest⟩ := Machine.run_cons.mp run
      have less := step_left taken
      have others := ih rest
      rw [List.length_cons]
      omega

/-- While the promise is pending, a timer or a continuation of the program is to come. -/
theorem Safe.busy {s : State E} (safe : Safe s) (live : s.isSettled = false) :
    ∃ e : Event E, e.own = true ∧ step s e ≠ none := by
  have pending := safe.pending live
  by_cases abandoned : s.hasAbandoned = true
  · rcases pending.abandonWork abandoned with ⟨waits, bound⟩ | ⟨asking, armed⟩ | ⟨remaining, found⟩
    · exact ⟨.abandonWait, rfl, by simp [step, waits, bound]⟩
    · exact ⟨.lookupTimer, rfl, by simp [step, asking, armed]⟩
    · exact ⟨.abandonEnd, rfl, by simp [step, found]⟩
  · have armed : s.abandonTimer = true := by
      rw [pending.abandonTimer]
      simpa using abandoned
    exact ⟨.abandonTimer none, rfl, by simp [step, armed]⟩

/-! ## A settlement stays -/

theorem finish_settled {s : State E} (done : s.isSettled = true) (settle : State E → State E) :
    s.finish settle = s := by
  unfold State.finish
  rw [if_pos done]

theorem step_outcomes {s t : State E} {e : Event E} (safe : Safe s) (done : s.isSettled = true)
    (taken : step s e = some t) : t.isSettled = true ∧ t.outcomes = s.outcomes := by
  have settled := safe.settled done
  rcases step_moves taken with ⟨armed, thrown⟩ | ⟨armed, thrown⟩ | ⟨first, error⟩ |
    ⟨waiting, count⟩ | waits | waits | ⟨asking, remaining⟩ | found
  · cases settled.forceTimer.symm.trans armed
  · cases settled.abandonTimer.symm.trans armed
  · unfold State.closeCallback
    rw [if_pos done]
    exact ⟨done, rfl⟩
  · exact ⟨done, rfl⟩
  · unfold State.closeWaitEnds State.settleClose
    rw [if_pos done]
    exact ⟨done, rfl⟩
  · unfold State.abandonWaitEnds
    dsimp only
    split_ifs <;> exact ⟨done, rfl⟩
  · exact ⟨done, rfl⟩
  · unfold State.abandonEnds
    rw [finish_settled (s := { s with lookup := .reported }) done]
    exact ⟨done, rfl⟩

theorem run_outcomes {s t : State E} {events : List (Event E)} (safe : Safe s)
    (done : s.isSettled = true) (run : Machine.run step s events = some t) :
    t.outcomes = s.outcomes := by
  have kept : Safe t ∧ t.isSettled = true ∧ t.outcomes = s.outcomes := by
    refine Machine.run_keeps (P := fun u => Safe u ∧ u.isSettled = true ∧ u.outcomes = s.outcomes)
      ?_ ⟨safe, done, rfl⟩ run
    rintro u e v ⟨safeU, doneU, same⟩ taken
    obtain ⟨doneV, kept⟩ := step_outcomes safeU doneU taken
    exact ⟨step_safe safeU taken, doneV, kept.trans same⟩
  exact kept.2.2

/-! ## Result -/

theorem Truthful.rejected {s : State E} {outcome : Settlement E} (truthful : Truthful s outcome)
    {a : Arrival E} (came : s.arrival = some a) (early : a.settled = false) {error : E}
    (reported : a.error = some error) : outcome = .rejected error := by
  rcases outcome with - | connections | ⟨connections, remaining, lateClose⟩ | other
  · obtain ⟨b, cameB, -, none⟩ := truthful
    cases came.symm.trans cameB
    cases reported.symm.trans none
  · obtain ⟨b, cameB, -, -, none⟩ := truthful
    cases came.symm.trans cameB
    cases reported.symm.trans none
  · cases reported.symm.trans ((truthful.2 a came).2 early)
  · rw [truthful a came early error reported]

/-- Every run settles the promise once: never twice, and at the latest when the program has
nothing more to do, which is after at most sixteen events.  Connections are released at most once,
and the outcome says what happened to the close callback. -/
theorem waitForServerClose_truthful (closeThrows sweepThrows : Option E) (events : List (Event E))
    (s : State E) (run : Machine.run step (start closeThrows sweepThrows) events = some s) :
    events.length ≤ 16 ∧ s.outcomes.length ≤ 1 ∧
    ((∀ e : Event E, e.own = true → step s e = none) → s.outcomes.length = 1) ∧
    (∀ more t, s.outcomes.length = 1 → Machine.run step s more = some t →
      t.outcomes = s.outcomes) ∧
    s.releases ≤ 1 ∧
    (∀ outcome ∈ s.outcomes,
      (outcome = .closed → ∃ a, s.arrival = some a ∧ a.released = false) ∧
      (∀ connections remaining lateClose, outcome = .abandoned connections remaining lateClose →
        ∀ a, s.arrival = some a → a.abandoned = true) ∧
      ∀ a error, s.arrival = some a → a.settled = false → a.error = some error →
        outcome = .rejected error) ∧
    ∀ error, closeThrows = some error → s.outcomes = [.rejected error] := by
  have began := start_safe closeThrows sweepThrows
  have safe : Safe s := Machine.run_keeps (fun _ _ _ => step_safe) began run
  have one : s.isSettled = true → s.outcomes.length = 1 := by
    intro done
    obtain ⟨⟨outcome, is, -⟩, -, -⟩ := safe.settled done
    rw [is, List.length_singleton]
  have empty : s.isSettled = false → s.outcomes = [] := fun live => (safe.pending live).outcomes
  have settledOf : s.outcomes ≠ [] → s.isSettled = true := by
    intro settled
    by_contra live
    exact settled (empty (by simpa using live))
  refine ⟨?_, ?_, ?_, ?_, ?_, ?_, ?_⟩
  · have counted := run_left run
    have first : (start closeThrows sweepThrows).left ≤ 16 := by
      rcases closeThrows with - | e <;> rcases sweepThrows with - | f
      all_goals simp [start, State.left, State.finish, State.settle, State.clearTimers,
        State.report, Counting.left, Wait.left, Lookup.left]
    omega
  · by_cases done : s.isSettled = true
    · exact (one done).le
    · rw [empty (by simpa using done)]
      exact Nat.zero_le _
  · intro idle
    by_contra several
    have live : s.isSettled = false := by
      by_contra done
      exact several (one (by simpa using done))
    obtain ⟨e, own, busy⟩ := safe.busy live
    exact busy (idle e own)
  · intro more t length again
    have settled : s.outcomes ≠ [] := by
      intro none
      rw [none] at length
      cases length
    exact run_outcomes safe (settledOf settled) again
  · rw [safe.releases]
    split_ifs <;> decide
  · intro outcome mem
    obtain ⟨⟨only, is, truthful⟩, -, -⟩ := safe.settled (settledOf (List.ne_nil_of_mem mem))
    rw [is] at mem
    obtain rfl := List.mem_singleton.mp mem
    refine ⟨?_, ?_, ?_⟩
    · rintro rfl
      obtain ⟨a, came, unreleased, -⟩ := truthful
      exact ⟨a, came, unreleased⟩
    · rintro connections remaining lateClose rfl a came
      exact (truthful.2 a came).1
    · exact fun a error came early reported => truthful.rejected came early reported
  · rintro error rfl
    exact run_outcomes began rfl run

/-! ## A forced release -/

namespace Demo

/-- The callback comes after the force timer, and waits for the count. -/
def forcedRun : List (Event Nat) :=
  [.forceTimer none, .close none, .counted (some 2), .closeWait]

theorem waitForServerClose_truthful_forced : ∃ s,
    Machine.run step (start none none) forcedRun = some s ∧ s.outcomes = [.forced 2] ∧
      s.releases ≤ 1 := by
  have run : Machine.run step (start none none) forcedRun = some _ := rfl
  have facts := waitForServerClose_truthful none none forcedRun _ run
  exact ⟨_, run, rfl, facts.2.2.2.2.1⟩

end Demo

end Knowledger.Http
