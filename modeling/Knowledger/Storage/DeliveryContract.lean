import Knowledger.Checks

/-!
# The delivery contract

What the private stores share: the errors they throw, the patterns of their columns, and the
packets and receipts of a review delivery.  A JSON column is the value whose text it holds.
-/

namespace Knowledger.Storage

open Js

/-! ## Errors -/

/-- What an operation throws: a `TypeError`, an error of the database or of a callback, the error
of a corrupt store, or a `DeliveryError`. -/
inductive Failure
  | typeError (message : String)
  | storeCorrupt
  | outOfRange
  | constraint
  | delivery (code : String) (status : Nat) (retryable : Bool)
  | domain (error : DomainError)
  | callback

structure Person where
  orgId : String
  actorId : String
  deriving DecidableEq

/-! ## Patterns -/

/-- `/^[a-f0-9-]{36}$/` -/
def isToken (s : String) : Bool :=
  s.toList.all (fun c => hexChar c || c == '-') && s.toList.length == 36

/-- A string property that matches a pattern. -/
def matches_ (pattern : String → Bool) : Option Value → Bool
  | some (.str (.wellFormed s)) => pattern s
  | _ => false

/-- `Object.keys(value).sort().join(',')` is the sorted names. -/
def hasFields (fields : Fields) (names : List String) : Bool :=
  fields.keys.isPerm (names.map Str.wellFormed)

/-- The object with exactly these properties. -/
def fields (value : Option Value) (names : List String) : Option Fields :=
  match value.bind isRecord with
  | some found => if hasFields found names then some found else none
  | none => none

/-- The text a regular expression sees: an array of one value is that value's. -/
def tested : Value → Option String
  | .str (.wellFormed s) => some s
  | .arr [v] => tested v
  | _ => none

/-- The days of a month of the Gregorian calendar. -/
def daysIn (year month : Nat) : Nat :=
  if month = 2 then
    if year % 4 = 0 ∧ (year % 100 ≠ 0 ∨ year % 400 = 0) then 29 else 28
  else if [4, 6, 9, 11].contains month then 30 else 31

def decimal (digits : List Char) : Nat := digits.foldl (fun n c => 10 * n + (c.toNat - 48)) 0

/-- `deliveryIso`: a date of the years 0000 to 9999 as `toISOString` writes it. -/
def deliveryIso (s : String) : Bool :=
  match s.toList with
  | [y1, y2, y3, y4, '-', m1, m2, '-', d1, d2, 'T', h1, h2, ':', n1, n2, ':', s1, s2, '.',
      f1, f2, f3, 'Z'] =>
      let month := decimal [m1, m2]
      let day := decimal [d1, d2]
      [y1, y2, y3, y4, m1, m2, d1, d2, h1, h2, n1, n2, s1, s2, f1, f2, f3].all digitChar &&
        Nat.ble 1 month && Nat.ble month 12 && Nat.ble 1 day &&
        Nat.ble day (daysIn (decimal [y1, y2, y3, y4]) month) && Nat.ble (decimal [h1, h2]) 23 &&
        Nat.ble (decimal [n1, n2]) 59 && Nat.ble (decimal [s1, s2]) 59
  | _ => false

/-- The white space that `trim` removes. -/
def space (c : Char) : Bool :=
  inRange 0x9 0xd c || inRange 0x2000 0x200a c ||
    [0x20, 0xa0, 0x1680, 0x2028, 0x2029, 0x202f, 0x205f, 0x3000, 0xfeff].contains c.toNat

/-! ## Packets and receipts -/

section

variable [Sha256]

def deliveryHash (value : Value) : Except Failure String :=
  (canonicalDigest value).mapError .domain

/-- A packet that passed its checks, with the fields the stores read. -/
structure ReviewPacket where
  json : Value
  deliveryId : String
  sourceId : String
  author : Person
  recipient : Person
  payloadDigest : String

def DELIVERY_MAX_BYTES : Nat := 32 * 1024

/-- `person`, with the other properties of the object. -/
def person (found : Fields) : Option Person :=
  match found.get "org_id", found.get "actor_id" with
  | some (.str (.wellFormed orgId)), some (.str (.wellFormed actorId)) =>
      if isId orgId && isId actorId then some ⟨orgId, actorId⟩ else none
  | _, _ => none

/-- The slot of a message. -/
def slotFields (value : Option Value) : Bool :=
  match fields value ["channel_id", "document_id", "context_id", "scope_id", "usage_scope"] with
  | some slot =>
      ["channel_id", "document_id", "context_id", "scope_id"].all
        (fun name => matches_ isId (slot.get name)) && matches_ isUsageScope (slot.get "usage_scope")
  | none => false

/-- `body.length`, in code units, and its `trim`. -/
def bodyFits : Option Value → Bool
  | some (.str s) => Nat.ble s.units.length 4000 &&
      (match s with
        | .wellFormed text => !text.toList.all space
        | .illFormed _ _ => true)
  | _ => false

/-- The comment of a message, as its author. -/
def commentAuthor (value : Option Value) : Option Person :=
  match fields value ["event_id", "author", "created_at", "body"] with
  | some comment =>
      match fields (comment.get "author") ["org_id", "actor_id", "kind"] with
      | some author =>
          if matches_ isId (comment.get "event_id") && matches_ deliveryIso (comment.get "created_at")
              && matches_ ["human", "agent"].contains (author.get "kind")
              && bodyFits (comment.get "body") then person author
          else none
      | none => none
  | none => none

/-- The message of a packet, as the packet it would be. -/
def reviewMessage (json : Value) (digest : String) (value : Option Value) : Option ReviewPacket :=
  match fields value ["schema_version", "delivery_id", "source_id", "workspace_id", "slot",
      "revision_digest", "recipient", "comment"] with
  | some m =>
      match m.get "delivery_id", m.get "source_id",
        (fields (m.get "recipient") ["org_id", "actor_id"]).bind person,
        commentAuthor (m.get "comment") with
      | some (.str (.wellFormed deliveryId)), some (.str (.wellFormed sourceId)), some recipient,
        some author =>
          if isNat (m.get "schema_version") 1 && isId deliveryId && isId sourceId &&
              matches_ isId (m.get "workspace_id") &&
              ((m.get "revision_digest").bind tested).any isDigest && slotFields (m.get "slot") then
            some ⟨json, deliveryId, sourceId, author, recipient, digest⟩
          else none
      | _, _, _, _ => none
  | none => none

/-- The value fits the transport once printed. -/
def withinBytes (value : Value) : Bool :=
  match canonicalize value with
  | .ok text => Nat.ble text.utf8ByteSize DELIVERY_MAX_BYTES
  | .error _ => false

def validateReviewPacket (value : Value) : Except Failure ReviewPacket :=
  let packet := do
    let found ← fields (some value) ["message", "payload_digest"]
    let message ← found.get "message"
    let digest ← (deliveryHash message).toOption
    let packet ← reviewMessage value digest (some message)
    if withinBytes value && isString (found.get "payload_digest") digest then some packet else none
  match packet with
  | some packet => .ok packet
  | none => .error (.delivery "INVALID_DELIVERY_PACKET" 400 false)

omit [Sha256] in
def validateReviewReceipt (value : Value) (packet : ReviewPacket) : Except Failure Value :=
  match fields (some value) ["schema_version", "delivery_id", "payload_digest", "received_at"] with
  | some found =>
      if isNat (found.get "schema_version") 1 && isString (found.get "delivery_id") packet.deliveryId
          && isString (found.get "payload_digest") packet.payloadDigest
          && matches_ deliveryIso (found.get "received_at") then .ok value
      else .error (.delivery "INVALID_DELIVERY_RECEIPT" 502 true)
  | none => .error (.delivery "INVALID_DELIVERY_RECEIPT" 502 true)

end

end Knowledger.Storage
