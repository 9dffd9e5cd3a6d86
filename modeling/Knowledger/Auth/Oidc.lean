import Knowledger.Lib.Machine
import Knowledger.Records

/-!
# Sessions of an OpenID Connect login

A login flow is stored until its callback, which exchanges the code and stores a session.  A session
is verified each time it is used: the actor of its subject is resolved, the user information is
fetched, and the actor is resolved again.  An operation runs between two such verifications.

An event is one segment of a request between its awaits, with what the promise it waited for came to.
-/

namespace Knowledger.Oidc

open Js

/-! ## Records -/

structure Actor where
  orgId : String
  actorId : String
  kind : ActorKind
  deriving DecidableEq

/-- The authorization version of the user information: a string or a safe integer. -/
inductive Version
  | text (s : Str)
  | number (n : Int)
  deriving DecidableEq

structure LoginFlow where
  id : String
  expires : Int

structure SessionRecord where
  id : String
  csrf : String
  actor : Actor
  expires : Int
  subject : String
  authorizationVersion : Option Version
  deriving DecidableEq

structure Options where
  issuer : String
  sessionMaxAgeMs : Int
  /-- `authorizationVersionClaim` is set. -/
  versioned : Bool

/-- The claims of the tokens a code was exchanged for. -/
structure Claims where
  issuer : String
  subject : Option String
  exp : Option Int
  expiresIn : Option Int

/-! ## Requests under way -/

/-- What a session is verified for. -/
inductive Purpose
  | callback (previous : Option String)
  | session
  | assert
  | before (actor : Actor)
  | after

/-- An answer that a verification accepted. -/
inductive Answered
  | actor (subject : String) (actor : Actor)
  | info (subject : String) (version : Option Version)

/-- What a request waits for. -/
inductive Stage
  | exchanging (previous : Option String)
  | binding (previous : Option String) (claims : Claims)
  | resolving (p : Purpose) (record : SessionRecord)
  | fetching (p : Purpose) (record : SessionRecord) (since : List Answered)
  | confirming (p : Purpose) (record : SessionRecord) (version : Option Version)
      (since : List Answered)
  | operating (id : String) (actor : Actor)
  | over

/-- What a promise comes to: it fails, as a service that is unavailable or otherwise, or it is
fulfilled. -/
inductive Answer
  | failed (unavailable : Bool)
  | tokens (claims : Option Claims)
  | actor (actor : Option Actor)
  | info (version : Option Version)
  | result

/-- Who was accepted, and whether the session was removed by then. -/
structure Accepted where
  session : Bool
  id : String
  removed : Bool

/-- An operation whose result was returned, with the answers of its last verification. -/
structure Returned where
  record : SessionRecord
  since : List Answered
  stored : Bool

structure State where
  closed : Bool
  flows : List LoginFlow
  sessions : List SessionRecord
  stages : Nat → Stage
  drawn : List String
  removed : List String
  consumed : List (LoginFlow × Int)
  accepted : List Accepted
  returned : List Returned

def State.new : State where
  closed := false
  flows := []
  sessions := []
  stages _ := .over
  drawn := []
  removed := []
  consumed := []
  accepted := []
  returned := []

def State.set (s : State) (f : Nat) (stage : Stage) : State :=
  { s with stages := Function.update s.stages f stage }

def State.find (s : State) (id : String) : Option SessionRecord :=
  s.sessions.find? fun record => record.id == id

/-- `sessions.delete` of every session of the kind. -/
def State.deleteAll (s : State) (gone : SessionRecord → Bool) : State :=
  { s with
    sessions := s.sessions.filter fun record => !gone record
    removed := (s.sessions.filter gone).map (·.id) ++ s.removed }

def State.delete (s : State) (id : String) : State := s.deleteAll fun record => record.id == id

def State.cleanup (s : State) (now : Int) : State :=
  { s with flows := s.flows.filter fun flow => now < flow.expires }.deleteAll
    fun record => decide (record.expires ≤ now)

def State.accept (s : State) (session : Bool) (id : String) : State :=
  { s with accepted := ⟨session, id, s.removed.contains id⟩ :: s.accepted }

/-! ## Verification -/

/-- A verification fails: `session` removes the record, unless the service was unavailable. -/
def State.fail (s : State) (f : Nat) (p : Purpose) (record : SessionRecord) (unavailable : Bool) :
    State :=
  match p with
  | .session => (if unavailable then s else s.delete record.id).set f .over
  | _ => s.set f .over

/-- The synchronous part of a verification. -/
def State.verify (s : State) (f : Nat) (p : Purpose) (record : SessionRecord) (now : Int) : State :=
  if s.closed || decide (record.expires ≤ now) then s.fail f p record false
  else s.set f (.resolving p record)

/-- The record as the stored one: `sessions.get(record.id) === record`. -/
def State.holds (s : State) (record : SessionRecord) : Bool := s.find record.id == some record

/-- A verification has passed. -/
def State.pass (s : State) (f : Nat) (p : Purpose) (record : SessionRecord)
    (since : List Answered) : State :=
  match p with
  | .callback previous =>
      if s.sessions.length ≥ 256 then s.set f .over
      else
        let s := match previous with
          | some id => s.delete id
          | none => s
        { s with sessions := s.sessions ++ [record] }.set f .over
  | .session => (s.accept true record.id).set f .over
  | .assert => (if s.holds record then s.accept false record.id else s).set f .over
  | .before actor => s.set f (if s.holds record then .operating record.id actor else .over)
  | .after =>
      (if s.holds record then
        { s.accept false record.id with
          returned := ⟨record, since, s.holds record⟩ :: s.returned }
      else s).set f .over

/-- The version is the one of the login; at the login it is fixed. -/
def confirm (o : Options) (p : Purpose) (record : SessionRecord) (version : Option Version) :
    Option SessionRecord :=
  if o.versioned then
    match version, p with
    | none, _ => none
    | some version, .callback _ => some { record with authorizationVersion := some version }
    | some version, _ => if record.authorizationVersion = some version then some record else none
  else some record

/-- The session of a login, and the lookups of a request, before the verification. -/
def State.assertCurrentActor (s : State) (f : Nat) (p : Purpose) (id : String) (actor : Actor)
    (now : Int) : State :=
  match s.find id with
  | some record => if record.actor = actor then s.verify f p record now else s.set f .over
  | none => s.set f .over

/-- The session that a login makes. -/
def newSession (o : Options) (claims : Claims) (subject : String) (exp : Int) (actor : Actor)
    (now : Int) (id csrf : String) : SessionRecord where
  id := id
  csrf := csrf
  actor := actor
  expires := min (now + o.sessionMaxAgeMs)
    (min (exp * 1000) (now + claims.expiresIn.getD 900 * 1000))
  subject := subject
  authorizationVersion := none

/-- What follows an answer. The tokens are drawn when a login makes a session. -/
def State.answer (o : Options) (s : State) (f : Nat) (answer : Answer) (now : Int)
    (id csrf : String) : Option State :=
  match s.stages f, answer with
  | .exchanging previous, .tokens claims =>
      match claims with
      | some claims =>
          if claims.issuer = o.issuer ∧ claims.subject.isSome ∧ claims.exp.isSome then
            some (s.set f (.binding previous claims))
          else some (s.set f .over)
      | none => some (s.set f .over)
  | .binding previous claims, .actor actor =>
      match actor, claims.subject, claims.exp with
      | some actor, some subject, some exp =>
          let record := newSession o claims subject exp actor now id csrf
          if actor.kind = .human ∧ now < record.expires then
            if id ∈ s.drawn then none
            else some ({ s with drawn := id :: s.drawn }.verify f (.callback previous) record now)
          else some (s.set f .over)
      | _, _, _ => some (s.set f .over)
  | .resolving p record, .actor actor =>
      some (if actor = some record.actor then
        s.set f (.fetching p record [.actor record.subject record.actor])
      else s.fail f p record false)
  | .fetching p record since, .info version =>
      some (if record.expires ≤ now then s.fail f p record false
      else s.set f (.confirming p record version (.info record.subject version :: since)))
  | .fetching p record _, .failed unavailable => some (s.fail f p record unavailable)
  | .confirming p record version since, .actor actor =>
      some (if actor = some record.actor then
        match confirm o p record version with
        | some record => s.pass f p record (.actor record.subject record.actor :: since)
        | none => s.fail f p record false
      else s.fail f p record false)
  | .operating id actor, .result => some (s.assertCurrentActor f .after id actor now)
  | .resolving p record, .failed _ => some (s.fail f p record false)
  | .confirming p record _ _, .failed _ => some (s.fail f p record false)
  | .exchanging _, .failed _ => some (s.set f .over)
  | .binding _ _, .failed _ => some (s.set f .over)
  | .operating _ _, .failed _ => some (s.set f .over)
  | _, _ => none

/-! ## Events -/

inductive Event
  | login (id : String) (now : Int)
  | callback (f : Nat) (flow previous : Option String) (now : Int)
  | logout (cookie : Option String) (csrf : String) (now : Int)
  | session (f : Nat) (cookie : Option String) (now : Int)
  | run (f : Nat) (id : String) (actor : Actor) (now : Int)
  | assert (f : Nat) (id : String) (actor : Actor) (now : Int)
  | answer (f : Nat) (answer : Answer) (now : Int) (id csrf : String)
  | close

def State.login (s : State) (id : String) (now : Int) : State :=
  if s.flows.length ≥ 128 then s
  else { s with
    flows := s.flows ++ [⟨id, now + 300000⟩], drawn := id :: s.drawn }

/-- A callback takes its flow, whether it has expired or not. -/
def State.callback (s : State) (f : Nat) (flow previous : Option String) (now : Int) : State :=
  match flow with
  | some id =>
      let found := s.flows.find? fun flow => flow.id == id
      let s := { s with flows := s.flows.filter fun flow => !(flow.id == id) }
      match found with
      | some flow =>
          if flow.expires ≤ now then s.set f .over
          else { s with consumed := (flow, now) :: s.consumed }.set f (.exchanging previous)
      | none => s.set f .over
  | none => s.set f .over

def State.logout (s : State) (cookie : Option String) (csrf : String) : State :=
  match cookie with
  | some id =>
      match s.find id with
      | some record => if csrf = record.csrf then s.delete id else s
      | none => s
  | none => s

def State.session (s : State) (f : Nat) (cookie : Option String) (now : Int) : State :=
  match cookie.bind s.find with
  | some record => s.verify f .session record now
  | none => s.set f .over

/-- A request that is not under way. -/
def State.idle (s : State) (f : Nat) : Bool :=
  match s.stages f with
  | .over => true
  | _ => false

variable (o : Options)

def State.step (s : State) : Event → Option State
  | .login id now =>
      if s.closed || s.drawn.contains id then none else some ((s.cleanup now).login id now)
  | .callback f flow previous now =>
      if s.closed || !s.idle f then none else some ((s.cleanup now).callback f flow previous now)
  | .logout cookie csrf now =>
      if s.closed then none else some ((s.cleanup now).logout cookie csrf)
  | .session f cookie now =>
      if s.idle f then some ((s.cleanup now).session f cookie now) else none
  | .run f id actor now =>
      if s.idle f then some (s.assertCurrentActor f (.before actor) id actor now) else none
  | .assert f id actor now =>
      if s.idle f then some (s.assertCurrentActor f .assert id actor now) else none
  | .answer f answer now id csrf => s.answer o f answer now id csrf
  | .close => some { s.deleteAll fun _ => true with
      closed := true, flows := [] }

end Knowledger.Oidc
