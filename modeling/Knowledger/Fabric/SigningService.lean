import Knowledger.Lib.Machine
import Knowledger.Lib.Sha256
import Knowledger.Fabric.AuditLog
import Knowledger.Storage.DeliveryContract

/-!
# The signing service

A client asks for a signature over a digest, and may have an organisation's attestation signed with
it.  The key signs both at once; every outcome of a request that reached the key is recorded, and a
signature is acknowledged only after its record was flushed.

An event is one segment of a request between its awaits: from its frame to the two signatures, and
from the signatures to its response.
-/

namespace Knowledger.SigningService

open Js Storage

/-! ## Requests -/

def sextet (c : Char) : Option Nat :=
  if upperChar c then some (c.toNat - 65)
  else if lowerChar c then some (c.toNat - 71)
  else if digitChar c then some (c.toNat + 4)
  else if c = '-' then some 62
  else if c = '_' then some 63
  else none

def sextetChar (n : Nat) : Char :=
  if n < 26 then Char.ofNat (n + 65)
  else if n < 52 then Char.ofNat (n + 71)
  else if n < 62 then Char.ofNat (n - 4)
  else if n = 62 then '-'
  else '_'

/-- The octets of groups of four sextets; what is left over is cut off. -/
def octetsOf : List Nat → List UInt8
  | a :: b :: c :: d :: rest =>
      UInt8.ofNat (a * 4 + b / 16) :: UInt8.ofNat (b % 16 * 16 + c / 4) ::
        UInt8.ofNat (c % 4 * 64 + d) :: octetsOf rest
  | [a, b, c] => [UInt8.ofNat (a * 4 + b / 16), UInt8.ofNat (b % 16 * 16 + c / 4)]
  | [a, b] => [UInt8.ofNat (a * 4 + b / 16)]
  | _ => []

/-- `toString('base64url')` -/
def base64url : List UInt8 → List Char
  | a :: b :: c :: rest =>
      sextetChar (a.toNat / 4) :: sextetChar (a.toNat % 4 * 16 + b.toNat / 16) ::
        sextetChar (b.toNat % 16 * 4 + c.toNat / 64) :: sextetChar (c.toNat % 64) :: base64url rest
  | [a, b] => [sextetChar (a.toNat / 4), sextetChar (a.toNat % 4 * 16 + b.toNat / 16),
      sextetChar (b.toNat % 16 * 4)]
  | [a] => [sextetChar (a.toNat / 4), sextetChar (a.toNat % 4 * 16)]
  | [] => []

/-- The octets a text stands for, if it is what they print as. -/
def base64 (value : Option Value) (exactBytes : Option Nat) (maxBytes : Nat) :
    Option (List UInt8) :=
  match value with
  | some (.str (.wellFormed s)) =>
      if s.toList ≠ [] ∧ s.toList.all (fun c => (sextet c).isSome) = true then
        let bytes := octetsOf (s.toList.filterMap sextet)
        if bytes.length ≤ maxBytes ∧ exactBytes.all (· = bytes.length) = true ∧
            base64url bytes = s.toList then some bytes
        else none
      else none
  | _ => none

def MAX_FRAME_BYTES : Nat := 32 * 1024
def MAX_CERTIFICATE_BYTES : Nat := 16 * 1024
def MAX_SIGNATURE_BYTES : Nat := 4 * 1024
def MAX_CONCURRENCY : Nat := 16

/-- What an organisation attests: who signs, and in which phase of which command. -/
structure Attestation where
  orgId : Str
  actorId : Str
  actorKind : ActorKind
  phase : String
  command : List (String × Option Value)

def Attestation.toJson (a : Attestation) : Value :=
  record ([("org_id", some (Value.str a.orgId)), ("actor_id", some (Value.str a.actorId)),
    ("actor_kind", some (jsonString a.actorKind.text))] ++ a.command)

def attestationField : Option Value → Option Str
  | some (.str s) => if s.units ≠ [] ∧ s.units.length ≤ 128 then some s else none
  | _ => none

def actorKind (value : Option Value) : Option ActorKind :=
  if isString value "human" then some .human
  else if isString value "agent" then some .agent
  else none

def assertSigningAttestation (value : Value) : Option Attestation := do
  let found ← isRecord value
  if isString (found.get "phase") "query" then
    if hasFields found ["org_id", "actor_id", "actor_kind", "phase"] then
      let orgId ← attestationField (found.get "org_id")
      let actorId ← attestationField (found.get "actor_id")
      let kind ← actorKind (found.get "actor_kind")
      return ⟨orgId, actorId, kind, "query", [("phase", some (jsonString "query"))]⟩
    else none
  else if hasFields found ["org_id", "actor_id", "actor_kind", "command_id", "command_type",
      "command_digest", "phase", "tx_id"] then
    let orgId ← attestationField (found.get "org_id")
    let actorId ← attestationField (found.get "actor_id")
    let commandId ← attestationField (found.get "command_id")
    let commandType ← attestationField (found.get "command_type")
    let txId ← attestationField (found.get "tx_id")
    let kind ← actorKind (found.get "actor_kind")
    if matches_ isDigest (found.get "command_digest") then
      let phase ← if isString (found.get "phase") "proposal" then some "proposal"
        else if isString (found.get "phase") "submit" then some "submit" else none
      return ⟨orgId, actorId, kind, phase, [("command_id", some (Value.str commandId)),
        ("command_type", some (Value.str commandType)),
        ("command_digest", found.get "command_digest"), ("phase", some (jsonString phase)),
        ("tx_id", some (Value.str txId))]⟩
    else none
  else none

structure SignRequest where
  keyId : String
  digest : List UInt8
  certificate : List UInt8
  attestation : Option Attestation

inductive RequestError
  | unknownKey
  | invalidRequest
  deriving DecidableEq

/-- `/^[A-Za-z0-9][A-Za-z0-9._:-]{2,127}$/` -/
def isKeyId (s : String) : Bool :=
  headThen (fun c => letterChar c || digitChar c) idChar 2 127 s.toList

/-- The request of a frame; `none` is a frame that is no strict JSON. -/
def parseRequest (body : Option Value) : Except RequestError SignRequest :=
  match body.bind isRecord with
  | none => .error .invalidRequest
  | some found =>
      let names := ["operation", "key_id", "digest", "certificate"]
      let attested := found.keys.contains (.wellFormed "attestation")
      if hasFields found (if attested then names ++ ["attestation"] else names) &&
          isString (found.get "operation") "sign" then
        match found.get "key_id" with
        | some (.str (.wellFormed keyId)) =>
            if isKeyId keyId then
              match base64 (found.get "digest") (some 32) MAX_FRAME_BYTES,
                base64 (found.get "certificate") none MAX_CERTIFICATE_BYTES with
              | some digest, some certificate =>
                  match found.get "attestation" with
                  | none => .ok ⟨keyId, digest, certificate, none⟩
                  | some value =>
                      match assertSigningAttestation value with
                      | some attestation => .ok ⟨keyId, digest, certificate, some attestation⟩
                      | none => .error .invalidRequest
              | _, _ => .error .invalidRequest
            else .error .unknownKey
        | _ => .error .unknownKey
      else .error .invalidRequest

/-! ## Keys and records -/

structure LoadedKey where
  certificate : List UInt8
  validFrom : Int
  validTo : Int
  orgId : Option Str
  actorId : Option Str
  actorKind : Option ActorKind
  allowedActorKinds : List ActorKind
  requireAttestation : Bool

/-- `Date.now()`, and the date in the records. -/
structure Moment where
  now : Int
  timestamp : String

def LoadedKey.expired (key : LoadedKey) (m : Moment) : Bool :=
  decide (m.now < key.validFrom) || decide (key.validTo ≤ m.now)

/-- The organisation, the actor and its kind are the key's own. -/
def LoadedKey.rejects (key : LoadedKey) : Option Attestation → Bool
  | none => key.requireAttestation
  | some a => key.orgId.isNone || key.actorId != some a.actorId ||
      key.actorKind != some a.actorKind || key.orgId != some a.orgId ||
      !key.allowedActorKinds.contains a.actorKind

def orNull (value : Option Value) : Value := value.getD .null

def text64 (bytes : List UInt8) : Value := jsonString (String.ofList (base64url bytes))

def certificateSha256 (r : SignRequest) : Value :=
  jsonString (String.ofList (Sha2.hexDigest (r.certificate.map UInt8.toNat)))

def LoadedKey.certificateActor (key : LoadedKey) : Value :=
  record [("actor_id", some (orNull (key.actorId.map Value.str))),
    ("actor_kind", some (orNull (key.actorKind.map fun kind => jsonString kind.text)))]

/-- A record of the log. -/
def auditRecord (type : String) (reason : Option String) (m : Moment) (r : SignRequest)
    (more : List (String × Option Value)) : Value :=
  record ([("record_type", some (jsonString type)), ("reason", reason.map jsonString),
    ("version", some (jsonNat 1)), ("timestamp", some (jsonString m.timestamp)),
    ("key_id", some (jsonString r.keyId)),
    ("attestation", some (orNull (r.attestation.map Attestation.toJson))),
    ("phase", some (orNull (r.attestation.map fun a => jsonString a.phase))),
    ("digest", some (text64 r.digest)), ("certificate_sha256", some (certificateSha256 r))] ++ more)

/-- What a request was signed with: the record that goes before its acknowledgement. -/
def signedRecord (m : Moment) (r : SignRequest) (key : LoadedKey) (signature : List UInt8)
    (attestationSignature : Option (List UInt8)) : Value :=
  auditRecord (if r.attestation.isNone then "signing" else "signing_attestation") none m r
    [("certificate_actor", some key.certificateActor), ("signature", some (text64 signature)),
      ("attestation_signature", attestationSignature.map text64)]

/-- A value a key produced; `none` is not a `Uint8Array`. -/
abbrev Produced := Option (List UInt8)

/-- The promise of a signature: it was rejected or timed out, or it came to a value. -/
abbrev SignResult := Option Produced

/-- The record of a request that failed after the key may have been used. -/
def rejectedRecord (reason : String) (m : Moment) (r : SignRequest) (key : LoadedKey)
    (produced : Option (SignResult × SignResult)) : Value :=
  auditRecord "signing_rejected" (some reason) m r
    (("certificate_actor", some key.certificateActor) ::
      match produced with
      | none => []
      | some (signature, attested) =>
          [("signature", some (orNull (signature.join.map text64))),
            ("attestation_signature", some (orNull (attested.join.map text64)))])

/-- The record of the outer `catch`. -/
def failedRecord (m : Moment) (r : SignRequest) : Value :=
  auditRecord "signing_rejected" (some "signing_failed") m r []

/-! ## The service -/

inductive Response
  | ok (signature : List UInt8) (attestationSignature : Option (List UInt8))
  | invalidRequest
  | unknownKey
  | rejected
  deriving DecidableEq

structure State where
  log : AuditLog
  active : Nat
  pending : Nat → Option (SignRequest × LoadedKey)
  closed : Bool
  sent : List (Option SignRequest × Response)

def State.new (log : AuditLog) : State where
  log := log
  active := 0
  pending _ := none
  closed := false
  sent := []

/-- The calls of a record, and of the one the outer `catch` writes when they throw. -/
structure Ios where
  first : Io
  second : Io

def State.respond (s : State) (r : Option SignRequest) (answer : Response) : State :=
  { s with sent := (r, answer) :: s.sent }

/-- The outer `catch`: its record is best effort. -/
def State.fail (s : State) (m : Moment) (r : SignRequest) (io : Io) : State :=
  { s with log := (s.log.audit (failedRecord m r) io).2 }.respond r .rejected

/-- A request is turned away with a record. -/
def State.reject (s : State) (m : Moment) (r : SignRequest) (record : Value) (io : Ios) : State :=
  match s.log.audit record io.first with
  | (true, log) => { s with log := log }.respond r .rejected
  | (false, log) => { s with log := log }.fail m r io.second

/-- A request whose frame was read, up to its signatures. -/
def State.request (keys : String → Option LoadedKey) (s : State) (f : Nat) (body : Option Value)
    (m : Moment) (evidence : Bool) (io : Ios) : State :=
  match parseRequest body with
  | .error .unknownKey => s.respond none .unknownKey
  | .error .invalidRequest => s.respond none .invalidRequest
  | .ok r =>
      match keys r.keyId with
      | none => s.respond (some r) .unknownKey
      | some key =>
          if s.active ≥ MAX_CONCURRENCY then s.respond (some r) .rejected
          else if key.expired m || r.certificate != key.certificate then
            s.reject m r (rejectedRecord "certificate_mismatch" m r key none) io
          else if key.rejects r.attestation then
            s.reject m r (rejectedRecord "attestation_rejected" m r key none) io
          -- The digest of the evidence may throw before either signature is begun.
          else if r.attestation.isSome && !evidence then s.fail m r io.first
          else { s with
            active := s.active + 1, pending := Function.update s.pending f (some (r, key)) }

def signatureValid (bytes : List UInt8) : Bool :=
  decide (bytes ≠ []) && decide (bytes.length ≤ MAX_SIGNATURE_BYTES)

/-- The record before the acknowledgement, and the acknowledgement. -/
def State.acknowledge (s : State) (m : Moment) (r : SignRequest) (key : LoadedKey)
    (signature : List UInt8) (attestationSignature : Option (List UInt8)) (io : Ios) : State :=
  match s.log.audit (signedRecord m r key signature attestationSignature) io.first with
  | (true, log) => { s with log := log }.respond r (.ok signature attestationSignature)
  | (false, log) => { s with log := log }.fail m r io.second

/-- Both signatures have settled. -/
def State.settle (s : State) (m : Moment) (r : SignRequest) (key : LoadedKey)
    (signatureResult attestedResult : SignResult) (io : Ios) : State :=
  match signatureResult, attestedResult with
  | some signature, some attested =>
      match signature with
      | some bytes =>
          if key.expired m || !signatureValid bytes then
            s.reject m r (rejectedRecord "signature_invalid" m r key
              (some (signatureResult, attestedResult))) io
          else if r.attestation.isNone then s.acknowledge m r key bytes none io
          else
            match attested with
            | some evidence =>
                if signatureValid evidence then s.acknowledge m r key bytes (some evidence) io
                else s.reject m r (rejectedRecord "attestation_signature_invalid" m r key
                  (some (signatureResult, attestedResult))) io
            | none => s.reject m r (rejectedRecord "attestation_signature_invalid" m r key
                (some (signatureResult, attestedResult))) io
      | none => s.reject m r (rejectedRecord "signature_invalid" m r key
          (some (signatureResult, attestedResult))) io
  | _, _ => s.reject m r (rejectedRecord "signing_failed" m r key
      (some (signatureResult, attestedResult))) io

def State.release (s : State) (f : Nat) : State :=
  { s with
    active := s.active - 1, pending := Function.update s.pending f none }

inductive Event
  | request (f : Nat) (body : Option Value) (m : Moment) (evidence : Bool) (io : Ios)
  | signed (f : Nat) (signature attested : SignResult) (m : Moment) (io : Ios)
  | close
  | closeLog

def State.step (keys : String → Option LoadedKey) (s : State) : Event → Option State
  | .request f body m evidence io =>
      -- The service's sockets are destroyed when it closes.
      if s.closed || (s.pending f).isSome then none
      else some (s.request keys f body m evidence io)
  | .signed f signature attested m io =>
      match s.pending f with
      | some (r, key) =>
          -- Without an attestation there is no second signature to wait for.
          let attested := if r.attestation.isNone then some none else attested
          some ((s.settle m r key signature attested io).release f)
      | none => none
  | .close => some { s with closed := true }
  | .closeLog =>
      -- After the handlers have drained, or at the deadline for that.
      if s.closed then some { s with log := s.log.close } else none

end Knowledger.SigningService
