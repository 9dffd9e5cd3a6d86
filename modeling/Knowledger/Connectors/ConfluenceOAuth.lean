import Knowledger.Lib.Machine
import Knowledger.Storage.DeliveryContract

/-!
# Tokens of a Confluence connection

A grant is kept in a store that providers in any number of processes share.  `getAccessToken`
hands out the access token of a fresh grant; an expired grant is first marked as refreshing, and
only the call that marked it sends the rotating refresh token.

An event is one segment of a call between two of its awaits, a step of the store, or what befalls
a call from outside.  The work of a call goes on behind its result: a call that was cancelled has
its result, and its work ends at the next check.
-/

namespace Knowledger.OAuth

open Js Storage

/-! ## Grants -/

inductive GrantState
  | ready (accessToken refreshToken : String) (expiresAt : Int)
  | refreshing (attemptId : Value)

/-- A grant that passed its checks, with the fields the provider reads. -/
structure ConfluenceGrant where
  json : Value
  version : Int
  state : GrantState

/-- `/^[!-~]{1,8192}$/` -/
def token : Option Value → Option String
  | some (.str (.wellFormed s)) =>
      if s.toList.all (inRange 33 126) && Nat.ble 1 s.toList.length &&
          Nat.ble s.toList.length 8192 then some s
      else none
  | _ => none

def time : Option Value → Option Int
  | some (.num (.int n)) => if 0 ≤ n ∧ n < 253402300799999 then some n else none
  | _ => none

/-- A version that two more swaps can follow. -/
def grantVersion : Option Value → Option Int
  | some (.num (.int n)) => if 1 ≤ n ∧ n ≤ maxSafeInteger - 2 then some n else none
  | _ => none

/-- `value.scope.split(' ').includes('read:page:confluence')`, in code units. -/
def readsPages : Option Value → Bool
  | some (.str s) => Nat.ble s.units.length 4096 &&
      (s.units.splitOn 32).contains (Str.wellFormed "read:page:confluence").units
  | _ => false

def readyFields : List String :=
  ["access_token", "client_id", "expires_at", "grant_id", "refresh_token", "scope", "state",
    "version"]

def refreshingFields : List String :=
  ["attempt_id", "client_id", "grant_id", "started_at", "state", "version"]

/-- The check of a loaded value; `none` is `OAUTH_STORE_UNAVAILABLE`. -/
def grant (value : Value) (id client : String) : Option ConfluenceGrant := do
  let found ← isRecord value
  let ready := isString (found.get "state") "ready"
  if hasFields found (if ready then readyFields else refreshingFields) &&
      isString (found.get "grant_id") id && isString (found.get "client_id") client then
    let version ← grantVersion (found.get "version")
    if ready then
      let accessToken ← token (found.get "access_token")
      let refreshToken ← token (found.get "refresh_token")
      let expiresAt ← time (found.get "expires_at")
      if readsPages (found.get "scope") then
        some ⟨value, version, .ready accessToken refreshToken expiresAt⟩
      else none
    else
      let attemptId ← found.get "attempt_id"
      let _ ← time (found.get "started_at")
      if isString (found.get "state") "refreshing" && (tested attemptId).any isToken then
        some ⟨value, version, .refreshing attemptId⟩
      else none
  else none

/-- The version by which the store compares. -/
def versionOf (value : Value) : Option Int :=
  match (isRecord value).bind (·.get "version") with
  | some (.num (.int n)) => some n
  | _ => none

def jsonInt (n : Int) : Value := .num (.int n)

/-! ## Calls -/

structure Options where
  clientId : String
  timeoutMs : Nat
  refreshBeforeMs : Nat

/-- The clocks of the process, and the id it would draw. -/
structure Moment where
  clock : Nat
  now : Int
  uuid : String

/-- The intent to refresh a grant. -/
structure Claim where
  current : ConfluenceGrant
  refreshToken : String
  secret : String
  attemptId : String
  startedAt : Int

/-- The grant a claim is marked with. -/
def Claim.version (c : Claim) : Int := c.current.version + 1

def Claim.marked (grantId : String) (o : Options) (c : Claim) : Value :=
  record [("grant_id", jsonString grantId), ("client_id", jsonString o.clientId),
    ("version", jsonInt c.version), ("state", jsonString "refreshing"),
    ("attempt_id", jsonString c.attemptId), ("started_at", jsonInt c.startedAt)]

/-- What a grant is loaded for. -/
inductive Reading
  | first
  | latest (current : ConfluenceGrant)
  | owned (c : Claim)
  | saved (next : ConfluenceGrant)

/-- Where the work of a call waits. -/
inductive Stage
  | permitRead (r : Reading)
  | reading (r : Reading)
  | read (r : Reading) (value : Value)
  | permitRefresh (current : ConfluenceGrant) (refreshToken : String)
  | secret (current : ConfluenceGrant) (refreshToken : String)
  | permitClaim (current : ConfluenceGrant) (refreshToken secret : String)
  | claiming (c : Claim)
  | claimed (c : Claim) (swapped : Bool)
  | requested (c : Claim) (started : Int)
  | responded (c : Claim) (started : Int)
  | saving (c : Claim) (next : ConfluenceGrant)
  | saved (next : ConfluenceGrant) (swapped : Bool)
  | over (result : Except String String)

/-- What a promise that a call waits for comes to. -/
inductive Settled
  | failed (code : Option String)
  | allowed (answer : Bool)
  | answered
  | secret (value : Value)
  | response (ok : Bool)
  | body (value : Value)

/-- The error of a promise that fails: a `ConfluenceOAuthError` is kept. -/
def failure (code : Option String) : String := code.getD "OAUTH_UNAVAILABLE"

/-- `canonicalize(a) !== canonicalize(b)`, where either may throw. -/
def sameGrant (a b : ConfluenceGrant) : Except String Bool :=
  match canonicalize a.json, canonicalize b.json with
  | .ok left, .ok right => .ok (left == right)
  | _, _ => .error "OAUTH_UNAVAILABLE"

/-- After a grant was loaded. -/
def loaded (o : Options) (m : Moment) (r : Reading) (g : ConfluenceGrant) : Except String Stage :=
  match r with
  | .first =>
      match g.state with
      | .refreshing _ => .error "OAUTH_REFRESH_UNCONFIRMED"
      | .ready _ refreshToken expiresAt =>
          if expiresAt > m.now + o.refreshBeforeMs then .ok (.permitRead (.latest g))
          else .ok (.permitRefresh g refreshToken)
  | .latest current =>
      if g.version = current.version then do
        let same ← sameGrant g current
        match current.state with
        | .ready accessToken _ expiresAt =>
            if same ∧ m.now < expiresAt then .ok (.over (.ok accessToken))
            else .error "OAUTH_GRANT_CHANGED"
        | .refreshing _ => .error "OAUTH_GRANT_CHANGED"
      else .error "OAUTH_GRANT_CHANGED"
  | .owned c =>
      match g.state with
      | .refreshing attemptId =>
          if g.version = c.version ∧ isString (some attemptId) c.attemptId = true then
            .ok (.requested c m.now)
          else .error "OAUTH_GRANT_CHANGED"
      | .ready .. => .error "OAUTH_GRANT_CHANGED"
  | .saved next =>
      match g.state with
      | .ready accessToken _ expiresAt => do
          let same ← sameGrant g next
          if same ∧ m.now < expiresAt then .ok (.over (.ok accessToken))
          else .error "OAUTH_GRANT_CHANGED"
      | .refreshing _ => .error "OAUTH_GRANT_CHANGED"

def expiresIn : Option Value → Option Int
  | some (.num (.int n)) => if 1 ≤ n ∧ n ≤ 86400 then some n else none
  | _ => none

/-- The grant of a token response. -/
def nextGrant (grantId : String) (o : Options) (c : Claim) (started : Int) (value : Value) :
    Except String ConfluenceGrant :=
  let found := (isRecord value).getD []
  match token (found.get "access_token"), token (found.get "refresh_token"),
    expiresIn (found.get "expires_in"), found.get "scope" with
  | some accessToken, some refreshToken, some seconds, some (.str scope) =>
      if (found.get "token_type").isNone || isString (found.get "token_type") "Bearer" then
        match grant (record [("version", jsonInt (c.version + 1)),
          ("grant_id", jsonString grantId), ("client_id", jsonString o.clientId),
          ("state", jsonString "ready"), ("access_token", jsonString accessToken),
          ("refresh_token", jsonString refreshToken),
          ("expires_at", jsonInt (started + seconds * 1000)), ("scope", Value.str scope)])
          grantId o.clientId with
        | some next => .ok next
        | none => .error "OAUTH_STORE_UNAVAILABLE"
      else .error "OAUTH_INVALID_RESPONSE"
  | _, _, _, _ => .error "OAUTH_INVALID_RESPONSE"

/-- What follows an await, when the call is not cancelled. -/
def proceed (grantId : String) (o : Options) (m : Moment) :
    Stage → Settled → Option (Except String Stage)
  | .permitRead r, .allowed answer =>
      some (if answer then .ok (.reading r) else .error "OAUTH_ACCESS_DENIED")
  | .read r value, .answered =>
      match grant value grantId o.clientId with
      | some g => some (loaded o m r g)
      | none => some (.error "OAUTH_STORE_UNAVAILABLE")
  | .permitRefresh current refreshToken, .allowed answer =>
      some (if answer then .ok (.secret current refreshToken) else .error "OAUTH_ACCESS_DENIED")
  | .secret current refreshToken, .secret value =>
      match token (some value) with
      | some secret => some (.ok (.permitClaim current refreshToken secret))
      | none => some (.error "OAUTH_CREDENTIAL_UNAVAILABLE")
  | .permitClaim current refreshToken secret, .allowed answer =>
      some (if answer then .ok (.claiming ⟨current, refreshToken, secret, m.uuid, m.now⟩)
        else .error "OAUTH_ACCESS_DENIED")
  | .claimed c swapped, .answered =>
      some (if swapped then .ok (.permitRead (.owned c)) else .error "OAUTH_GRANT_CHANGED")
  | .requested c started, .response ok =>
      some (if ok then .ok (.responded c started) else .error "OAUTH_RECONNECT_REQUIRED")
  | .responded c started, .body value => some ((nextGrant grantId o c started value).map (.saving c))
  | .saved next swapped, .answered =>
      some (if swapped then .ok (.permitRead (.saved next)) else .error "OAUTH_GRANT_CHANGED")
  | _, _ => none

/-- A promise settles: one that fails is not followed by a check. -/
def resume (grantId : String) (o : Options) (cancelled : Bool) (m : Moment) (stage : Stage)
    (settled : Settled) : Option Stage :=
  match stage, settled with
  | .over _, _ => none
  | stage, .failed code => some (.over (.error (failure code)))
  | stage, settled =>
      (proceed grantId o m stage settled).map fun next =>
        if cancelled then .over (.error "OAUTH_CANCELLED")
        else
          match next with
          | .ok next => next
          | .error code => .over (.error code)

/-! ## The providers and their store -/

structure Call where
  provider : Nat
  deadline : Nat
  aborted : Bool
  stage : Stage
  result : Option (Except String String)
  lastLoad : Option Value

/-- A request to the token endpoint, and the version whose token it carries. -/
structure Request where
  clientId : String
  clientSecret : String
  refreshToken : String
  version : Int

/-- A token that was handed out, with what its call loaded last. -/
structure Returned where
  provider : Nat
  accessToken : String
  lastLoad : Option Value
  now : Int

structure State where
  store : Value
  past : List Value
  stray : List (Int × Value)
  swaps : List (Option Int × Option Int)
  calls : Nat → Option Call
  closed : Nat → Bool
  requests : List Request
  returned : List Returned

def State.new (store : Value) : State where
  store := store
  past := []
  stray := []
  swaps := []
  calls _ := none
  closed _ := false
  requests := []
  returned := []

/-- Every grant that was ever stored. -/
def State.history (s : State) : List Value := s.store :: s.past

/-- The store takes a value whose version was never used. -/
def State.put (s : State) (value : Value) : Option State :=
  if (versionOf value).isSome ∧ versionOf value ∈ s.history.map versionOf then none
  else some { s with
    store := value, past := s.store :: s.past }

/-- `compareAndSwap`, at the moment it takes effect. -/
def State.swap (s : State) (expected : Int) (next : Value) : Option (Bool × State) :=
  if versionOf s.store = some expected then
    (s.put next).map fun t =>
      (true, { t with swaps := (versionOf s.store, versionOf next) :: t.swaps })
  else some (false, s)

inductive Event
  | call (f provider : Nat) (m : Moment) (aborted : Bool)
  | abort (f : Nat)
  | close (provider : Nat)
  | land (f : Nat)
  | resume (f : Nat) (m : Moment) (settled : Settled)
  | stray (i : Nat)
  | reconnect (value : Value)

def State.set (s : State) (f : Nat) (call : Call) : State :=
  { s with calls := Function.update s.calls f (some call) }

/-- The race of a call is lost to its cancellation. -/
def Call.cancel (call : Call) : Call :=
  { call with
    aborted := true, result := some (call.result.getD (.error "OAUTH_CANCELLED")) }

/-- The work of a call reaches a stage; its end is the result, unless the race was lost. -/
def Call.reach (call : Call) (stage : Stage) : Call :=
  match stage, call.result with
  | .over result, none =>
      { call with stage := stage, result := some result, aborted := true }
  | stage, _ => { call with stage := stage }

def State.cancelled (s : State) (call : Call) (m : Moment) : Bool :=
  s.closed call.provider || call.aborted || call.deadline ≤ m.clock

/-- A stage that is reached sends its request or hands out its token. -/
def State.note (s : State) (o : Options) (call : Call) (m : Moment) : Stage → State
  | .requested c _ =>
      { s with requests := ⟨o.clientId, c.secret, c.refreshToken, c.current.version⟩ :: s.requests }
  | .over (.ok accessToken) =>
      if call.result.isNone then
        { s with
          returned := ⟨call.provider, accessToken, call.lastLoad, m.now⟩ :: s.returned }
      else s
  | _ => s

/-- The store does what a call asked of it. -/
def State.land (s : State) (grantId : String) (o : Options) (f : Nat) (call : Call) :
    Option State :=
  match call.stage with
  | .reading r =>
      some (s.set f { call with stage := .read r s.store, lastLoad := some s.store })
  | .claiming c =>
      (s.swap c.current.version (c.marked grantId o)).map fun (swapped, t) =>
        t.set f { call with stage := .claimed c swapped }
  | .saving c next =>
      (s.swap c.version next.json).map fun (swapped, t) =>
        t.set f { call with stage := .saved next swapped }
  | _ => none

/-- `getAccessToken` up to its first await. -/
def State.start (s : State) (o : Options) (f provider : Nat) (m : Moment) (aborted : Bool) :
    State :=
  let call : Call := ⟨provider, m.clock + o.timeoutMs, false, .permitRead .first, none, none⟩
  if s.closed provider || aborted then
    s.set f { call.cancel with stage := .over (.error "OAUTH_CANCELLED") }
  else s.set f call

/-- A swap whose promise fails may still reach the store. -/
def strays (grantId : String) (o : Options) : Stage → Settled → List (Int × Value)
  | .claiming c, .failed _ => [(c.current.version, c.marked grantId o)]
  | .saving c next, .failed _ => [(c.version, next.json)]
  | _, _ => []

/-- A stray swap takes effect; no call hears of it. -/
def State.landStray (s : State) (i : Nat) : Option State :=
  match s.stray[i]? with
  | some (expected, next) =>
      (s.swap expected next).map fun (_, t) => { t with stray := t.stray.eraseIdx i }
  | none => none

def State.resume (s : State) (grantId : String) (o : Options) (f : Nat) (call : Call) (m : Moment)
    (settled : Settled) : Option State :=
  (OAuth.resume grantId o (s.cancelled call m) m call.stage settled).map fun stage =>
    ({ s with stray := strays grantId o call.stage settled ++ s.stray }.note o call m stage).set f
      (call.reach stage)

variable (grantId : String) (options : Nat → Options)

def State.step (s : State) : Event → Option State
  | .call f provider m aborted =>
      match s.calls f with
      | none => some (s.start (options provider) f provider m aborted)
      | some _ => none
  | .abort f =>
      -- The caller's signal, or the timer.
      (s.calls f).map fun call => s.set f call.cancel
  | .close provider =>
      some { s with
        closed := Function.update s.closed provider true
        calls := fun f => (s.calls f).map fun call =>
          if call.provider = provider then call.cancel else call }
  | .land f =>
      match s.calls f with
      | some call => s.land grantId (options call.provider) f call
      | none => none
  | .resume f m settled =>
      match s.calls f with
      | some call => s.resume grantId (options call.provider) f call m settled
      | none => none
  | .stray i => s.landStray i
  | .reconnect value => s.put value

end Knowledger.OAuth
