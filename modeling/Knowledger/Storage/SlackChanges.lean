import Knowledger.Storage.SlackNotices

/-!
# What a call changes

`Change` lists the states a call may leave: the old one, or one in which a single row was
expired, sent, settled or resolved, each under the conditions the call found.
-/

namespace Knowledger.Slack

open Js Storage

variable {s t : State} {actor : Person} {id binding team dm token : String}

/-! ## Reading -/

theorem slackAcceptance_ok {value accepted : Value} (run : slackAcceptance value = .ok accepted) :
    accepted = value := by
  unfold slackAcceptance at run
  split at run
  · split at run
    · exact (Except.ok.inj run).symm
    · cases run
  · cases run

theorem decode_ok {n m : SlackNotice} (run : decode n = .ok m) : m = n := by
  unfold decode at run
  split at run
  · split at run
    · split at run
      · split at run
        · exact (Except.ok.inj run).symm
        · cases run
      · cases run
    · split at run
      · cases run
      · exact (Except.ok.inj run).symm
  · cases run

theorem get_some {n : SlackNotice} (run : s.get actor id = .ok (some n)) :
    ∃ row, s.rows id = some row ∧ row.owner = actor ∧ row.notice = n ∧
      decode row.notice = .ok row.notice := by
  unfold State.get at run
  split at run
  · next row stored =>
      split at run
      · next owned =>
          split at run
          · obtain ⟨m, decoded, same⟩ := map_ok.mp run
            obtain rfl := Option.some.inj same
            obtain rfl := decode_ok decoded
            exact ⟨row, stored, owned, rfl, decoded⟩
          · cases run
      · cases run
  · cases run

/-! ## Changes -/

/-- Every time a call computes is one the store accepts. -/
def Timely (s : State) : Event → Prop
  | .clock now => validTime now = true
  | .claim _ _ _ _ _ leaseMs _ => leaseMs ≤ 60000 → validTime (s.clock + leaseMs + 1000) = true
  | .settle _ result => validTime (s.clock + 1000) = true ∧
      (result.retry ≤ 86400000 → validTime (s.clock + result.retry.toNat) = true)
  | .resolve .. => True

instance (s : State) (e : Event) : Decidable (Timely s e) := by
  cases e <;> dsimp only [Timely] <;> infer_instance

/-- The row of a first attempt. -/
def Row.first (actor : Person) (id binding token : String) (now until_ : Nat) : Row where
  owner := actor
  notice :=
    { reminderId := id, binding := binding, status := .sending, attempts := 1
      nextAttemptAt := now, leaseToken := some token, leaseUntil := some until_
      lastCode := none, receipt := none, version := 1, totalAttempts := 1 }

/-- The row is stored, and its history goes on. -/
def State.put (s : State) (id : String) (row : Row) (mark : Mark) : State :=
  { s with
    rows := Function.update s.rows id (some row)
    marks := Function.update s.marks id (mark :: s.marks id) }

/-- The row behind a change. -/
def Row.changed (row : Row) (change : SlackNotice → SlackNotice) : Row :=
  { row with notice := { change row.notice with version := row.notice.version + 1 } }

theorem write_eq {row : Row} {mark : Mark} {change : SlackNotice → SlackNotice}
    (stored : s.rows id = some row) : s.write id mark change = s.put id (row.changed change) mark := by
  unfold State.write State.put Row.changed
  rw [stored]
  rfl

/-- The conversation is held until the lease has run out, and the worker has its job. -/
def State.lease (s : State) (job : Job) : State :=
  { s.defer (dmScope job.team job.dm) (job.until_ + 1000) with jobs := job :: s.jobs }

/-- The settled row, the team's limit and the conversation's. -/
def State.conclude (s : State) (job : Job) (result : SlackResult) (attempts : Nat)
    (receipt : Option Value) : State :=
  let status := result.settles attempts
  let next := s.clock + result.retry.toNat
  let t := s.write job.id (.settled job.token status)
    (SlackNotice.settle status next result.code receipt)
  (if result.code = some "SLACK_RATE_LIMITED" then t.defer (teamScope job.team) next else t).release
    job

inductive Change (s : State) : State → Prop
  | nothing : Change s s
  | clock {now : Nat} (later : s.clock ≤ now) (timely : validTime now = true) :
      Change s { s with clock := now }
  | expired {id : String} {row : Row} (stored : s.rows id = some row)
      (lapsed : row.notice.lapsed s.clock = true) :
      Change s (s.write id .expired SlackNotice.expire)
  | resent {id binding : String} {row : Row} {job : Job} (stored : s.rows id = some row)
      (waiting : row.notice.waiting binding s.clock = true)
      (free : s.free job.team job.dm = .ok true) (fresh : s.fresh job.token) (named : job.id = id)
      (ends : s.clock < job.until_) (timely : validTime (job.until_ + 1000) = true) :
      Change s ((s.write id (.sent job.token) (SlackNotice.send job.token job.until_)).lease job)
  | created {actor : Person} {id binding : String} {job : Job} (absent : s.rows id = none)
      (valid : isId id = true ∧ isDigest binding = true ∧ validTime s.clock = true)
      (free : s.free job.team job.dm = .ok true) (fresh : s.fresh job.token) (named : job.id = id)
      (ends : s.clock < job.until_) (timely : validTime (job.until_ + 1000) = true) :
      Change s ((s.put id (Row.first actor id binding job.token s.clock job.until_)
        (.sent job.token)).lease job)
  | settled {job : Job} {row : Row} {result : SlackResult} {receipt : Option Value}
      (held : job ∈ s.jobs) (stored : s.rows job.id = some row)
      (sending : row.notice.status = .sending) (token : row.notice.leaseToken = some job.token)
      (adapted : result.adapted = true) (retry : result.retry ≤ 86400000)
      (accepted : result.receipt = .ok receipt) (soon : validTime (s.clock + 1000) = true)
      (timely : validTime (s.clock + result.retry.toNat) = true) :
      Change s (s.conclude job result row.notice.attempts receipt)
  | resolved {actor : Person} {id operationId : String} {row : Row} {outcome : Outcome}
      {digest : String} {binding : Option String} {result : SlackNotice}
      (stored : s.rows id = some row)
      (terminal : [Status.unknown, .blocked, .failed].contains (row.notice.seen binding s.clock) =
        true)
      (allowed : outcome = .retry → binding = some row.notice.binding)
      (new : s.resolutions actor operationId = none) (decoded : decode result = .ok result) :
      Change s ((s.write id (.resolved outcome) (SlackNotice.resolve outcome s.clock)).record actor
        operationId ⟨digest, result⟩)

/-! ## Calls -/

theorem claim_change {leaseMs : Nat} {r : Option SlackNotice} (fresh : s.fresh token)
    (timely : leaseMs ≤ 60000 → validTime (s.clock + leaseMs + 1000) = true)
    (run : s.claim actor id binding team dm leaseMs token = .ok (r, t)) : Change s t := by
  unfold State.claim at run
  split at run
  · next checks =>
      simp only [Bool.and_eq_true, decide_eq_true_eq] at checks
      obtain ⟨⟨⟨⟨validId, validBinding⟩, validClock⟩, atLeast⟩, atMost⟩ := checks
      obtain ⟨existing, got, run⟩ := bind_ok.mp run
      split at run
      · next lapsed =>
          obtain ⟨n, rfl, lapsed⟩ := (Option.any_eq_true _ _).mp lapsed
          obtain ⟨row, stored, -, rfl, -⟩ := get_some got
          cases run
          exact .expired stored lapsed
      · split at run
        · next waiting =>
            obtain ⟨free, freed, run⟩ := bind_ok.mp run
            split at run
            · next isFree =>
                subst isFree
                unfold State.take at run
                obtain ⟨u, written, run⟩ := bind_ok.mp run
                obtain ⟨notice, -, run⟩ := bind_ok.mp run
                cases run
                have ends : s.clock < s.clock + leaseMs := by omega
                unfold State.send at written
                cases existing with
                | some n =>
                    obtain ⟨row, stored, rfl, rfl, -⟩ := get_some got
                    obtain rfl := Except.ok.inj written
                    let job : Job := ⟨row.owner, id, team, dm, token, s.clock + leaseMs⟩
                    exact @Change.resent s id binding row job stored waiting freed fresh rfl ends
                      (timely atMost)
                | none =>
                    dsimp only at written
                    unfold State.insert at written
                    split at written
                    · cases written
                    · next absent =>
                        obtain rfl := Except.ok.inj written
                        let job : Job := ⟨actor, id, team, dm, token, s.clock + leaseMs⟩
                        exact @Change.created s actor id binding job absent
                          ⟨validId, validBinding, validClock⟩ freed fresh rfl ends
                          (timely atMost)
            · cases run
              exact .nothing
        · cases run
          exact .nothing
  · cases run

theorem settle_change {job : Job} {result : SlackResult} (held : job ∈ s.jobs)
    (adapted : result.adapted = true) (soon : validTime (s.clock + 1000) = true)
    (timely : result.retry ≤ 86400000 → validTime (s.clock + result.retry.toNat) = true)
    (run : s.settle job result = .ok t) : Change s t := by
  unfold State.settle at run
  split at run
  · obtain ⟨current, got, run⟩ := bind_ok.mp run
    cases current with
    | none =>
        cases run
        exact .nothing
    | some n =>
        obtain ⟨row, stored, -, rfl, -⟩ := get_some got
        dsimp only at run
        split at run
        · next lease =>
            split at run
            · next range =>
                obtain ⟨receipt, accepted, run⟩ := bind_ok.mp run
                cases run
                exact .settled held stored lease.1 lease.2 adapted range.2 accepted
                  soon (timely range.2)
            · cases run
        · cases run
          exact .nothing
  · cases run

theorem seen_terminal {n : SlackNotice} {binding : Option String} {now : Nat}
    (terminal : [Status.unknown, .blocked, .failed].contains (n.seen binding now) = true) :
    n.lapsed now = true ∨ (binding ≠ some n.binding ∧ n.status = .retryWait) ∨
      n.status = .unknown ∨ n.status = .blocked ∨ n.status = .failed := by
  unfold SlackNotice.seen at terminal
  split at terminal
  · next lapsed => exact Or.inl lapsed
  · split at terminal
    · next changed => exact Or.inr (Or.inl changed)
    · exact Or.inr (Or.inr (by simpa using terminal))

theorem resolveNew_change [Sha256] {input : Value} {eligible : Option Bool}
    {bound : Option String} {request : SlackResolution} {r : SlackNotice}
    (new : s.resolutions actor request.operationId = none)
    (run : s.resolveNew actor id bound request input eligible = .ok (r, t)) : Change s t := by
  unfold State.resolveNew at run
  obtain ⟨current, got, run⟩ := bind_ok.mp run
  cases current with
  | none => cases run
  | some n =>
      obtain ⟨row, stored, -, rfl, -⟩ := get_some got
      dsimp only at run
      split at run
      · next open_ =>
          obtain ⟨allowed, asked, run⟩ := bind_ok.mp run
          split at run
          · next granted =>
              subst granted
              obtain ⟨found, read, run⟩ := bind_ok.mp run
              cases found with
              | none => cases run
              | some result =>
                  obtain ⟨digest, -, run⟩ := bind_ok.mp run
                  obtain ⟨after, -, -, rfl, decoded⟩ := get_some read
                  cases run
                  refine .resolved stored open_.2 (fun retried => ?_) new decoded
                  unfold SlackNotice.allows at asked
                  rw [if_pos retried] at asked
                  split at asked
                  · assumption
                  · cases asked
          · cases run
      · cases run

theorem resolve_change [Sha256] {input : Value} {eligible : Option Bool} {bound : Option String}
    {r : SlackNotice} (run : s.resolve actor id bound input eligible = .ok (r, t)) :
    Change s t := by
  unfold State.resolve at run
  obtain ⟨request, -, run⟩ := bind_ok.mp run
  split at run
  · obtain ⟨replay, replayed, run⟩ := bind_ok.mp run
    cases replay with
    | some replay =>
        cases run
        exact .nothing
    | none =>
        refine resolveNew_change ?_ run
        unfold State.resolutionReplay at replayed
        split at replayed
        · assumption
        · obtain ⟨digest, -, replayed⟩ := bind_ok.mp replayed
          split at replayed
          · split at replayed <;> cases replayed
          · cases replayed
  · cases run

theorem step_change [Sha256] {e : Event} (timely : Timely s e) (taken : s.step e = some t) : Change s t := by
  cases e with
  | clock now =>
      obtain ⟨later, rfl⟩ := (Option.ite_none_right_eq_some.mp taken).imp_right Option.some.inj
      exact .clock later timely
  | claim actor id binding team dm leaseMs token =>
      obtain ⟨fresh, rfl⟩ := (Option.ite_none_right_eq_some.mp taken).imp_right Option.some.inj
      unfold State.after
      split
      · next run => exact claim_change fresh timely run
      · exact .nothing
  | settle job result =>
      dsimp only [State.step] at taken
      split at taken
      · next found =>
          obtain ⟨adapted, rfl⟩ :=
            (Option.ite_none_right_eq_some.mp taken).imp_right Option.some.inj
          unfold State.after
          split
          · next run =>
              obtain ⟨u, run, same⟩ := map_ok.mp run
              cases same
              exact settle_change (List.mem_of_getElem? found) adapted timely.1
                timely.2 run
          · exact .nothing
      · cases taken
  | resolve actor id binding input eligible =>
      obtain rfl := Option.some.inj taken
      unfold State.after
      split
      · next run => exact resolve_change run
      · exact .nothing

end Knowledger.Slack
