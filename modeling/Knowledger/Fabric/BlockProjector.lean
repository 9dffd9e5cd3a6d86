import Knowledger.Fabric.BlockHeader
import Knowledger.Storage.LocalLedger
import Knowledger.StrictJson

/-!
# The block projector

A `FabricBlockProjector` reads blocks into a map of states.  `prepareBlock` checks a block against
the last checkpoint and stages its writes over the live map; `commit` publishes them while the
projector is still at the very checkpoint object that the block was prepared on; `fork` copies a
projector.  Blocks may be prepared and committed in any order on any number of projectors: each of
them holds the fold of the valid writes of one chain of blocks (`projectors_fold`), and a prepared
block is committed at most once (`prepared_once`).
-/

namespace Knowledger.Projector

open Js Txn Uri Fabric Storage

/-! ## Messages -/

structure BlockMessage where
  header : Option BlockHeader
  data : Option (List (List UInt8))
  metadata : Option (List (List UInt8))

structure Payload where
  channelHeader : Option (List UInt8)
  data : List UInt8

structure Timestamp where
  seconds : Int
  nanos : Int

structure ChannelHeader where
  channelId : String
  txId : String
  type : Nat
  timestamp : Option Timestamp

structure ChaincodeId where
  name : String
  version : String

structure ChaincodeAction where
  chaincodeId : Option ChaincodeId
  results : List UInt8

structure NsReadWriteSet where
  namespaceName : String
  collectionHashedRwset : List (List UInt8)
  rwset : List UInt8

structure TxReadWriteSet where
  dataModel : Nat
  nsRwset : List NsReadWriteSet

structure KVWrite where
  key : String
  isDelete : Bool
  value : List UInt8

structure KVRWSet where
  metadataWrites : List (List UInt8)
  writes : List KVWrite

/-- The protobuf classes: what `deserializeBinary` reads, or that it throws.  An action is read as
its payload, that as the response payload of its endorsed action if there is one, and that as its
extension. -/
structure Protos where
  block : List UInt8 → Option BlockMessage
  envelope : List UInt8 → Option (List UInt8)
  payload : List UInt8 → Option Payload
  channelHeader : List UInt8 → Option ChannelHeader
  transaction : List UInt8 → Option (List (List UInt8))
  actionPayload : List UInt8 → Option (Option (List UInt8))
  responsePayload : List UInt8 → Option (List UInt8)
  action : List UInt8 → Option ChaincodeAction
  rwset : List UInt8 → Option TxReadWriteSet
  kvRwset : List UInt8 → Option KVRWSet
  /-- `SUPPORTED_VALIDATION_CODES` -/
  supported : Nat → Bool

/-- The members of the pinned genesis that a bootstrap manifest repeats. -/
structure Genesis where
  configVersion : Str ⊕ Number
  membershipEpoch : Int
  roleBindingVersion : Int

/-- The readers and the options of a projector. -/
structure Reader extends Protos where
  channelId : String
  chaincodeName : String
  chaincodeVersion : String
  genesis : Genesis
  genesisDigest : String

def fail {α : Type} (message : String) : Except Thrown α := .error (.error message)

def decode {α : Type} (deserializeBinary : List UInt8 → Option α) (value : List UInt8) :
    Except Thrown α :=
  if value = [] then fail "Required Fabric protobuf message is empty"
  else
    match deserializeBinary value with
    | some message => .ok message
    | none => fail "Malformed Fabric protobuf message"

/-- `HeaderType.CONFIG` -/
def configType : Nat := 1
/-- `HeaderType.ENDORSER_TRANSACTION` -/
def endorserTransaction : Nat := 3
/-- `TxValidationCode.VALID` -/
def validCode : Nat := 0
/-- `TxReadWriteSet.DataModel.KV` -/
def kvDataModel : Nat := 0

structure ProjectorCheckpoint where
  channelId : String
  blockNumber : Nat
  blockHash : String
  dataHash : String

structure ProjectedTransaction where
  txId : String
  transactionIndex : Nat
  validationCode : Nat
  valid : Bool
  writes : Nat
  writeset : List (String × Value)
  timestamp : String

structure DecodedTransaction extends ProjectedTransaction where
  headerType : Nat

structure ProjectBlockResult where
  checkpoint : ProjectorCheckpoint
  transactions : List ProjectedTransaction
  validTransactionIds : List String
  invalidTransactionIds : List String

def bootstrapKey : String := "kcl:v1:bootstrap_manifest"

/-- `InitializedKeyName` of Fabric. -/
def fabricInitializedKey : String := String.ofList ['\x00', Char.ofNat 0x10ffff] ++ "initialized"

/-- `key === BOOTSTRAP_KEY ? "bootstrap_manifest" : key.split(":")[2]` -/
def kindOf (key : String) : Option String :=
  if key = bootstrapKey then some "bootstrap_manifest" else (splitOn ':' key)[2]?

/-- The keys whose value is fixed once it is written. -/
def pinned (key : String) : Bool :=
  (kindOf key).any fun kind => kind == "bootstrap_manifest" || immutableKinds.contains kind

def digest (value : List UInt8) : String :=
  String.ofList (Sha2.hexDigest (value.map UInt8.toNat))

/-! ## Timestamps -/

def padStart (width n : Nat) : List Char :=
  let digits := Nat.toDigits 10 n
  List.replicate (width - digits.length) '0' ++ digits

/-- The year, month and day of a number of days since 1970.  Days are counted in cycles of four
hundred years from the first of March, 0000. -/
def civilDate (days : Int) : Int × Nat × Nat :=
  let shifted := days + 719468
  let day := (shifted % 146097).toNat
  let year := (day - day / 1460 + day / 36524 - day / 146096) / 365
  let ofYear := day - (365 * year + year / 4 - year / 100)
  let month := (5 * ofYear + 2) / 153
  let date := ofYear - (153 * month + 2) / 5 + 1
  let years := year + shifted / 146097 * 400
  if month < 10 then (years, month + 3, date) else (years + 1, month - 9, date)

/-- `new Date(time).toISOString()` -/
def toISOString (time : Int) : List Char :=
  let (year, month, day) := civilDate (time / 86400000)
  let ms := (time % 86400000).toNat
  let yearText :=
    if 0 ≤ year ∧ year ≤ 9999 then padStart 4 year.toNat
    else (if year < 0 then '-' else '+') :: padStart 6 year.natAbs
  yearText ++ ['-'] ++ padStart 2 month ++ ['-'] ++ padStart 2 day ++ ['T'] ++
    padStart 2 (ms / 3600000) ++ [':'] ++ padStart 2 (ms / 60000 % 60) ++ [':'] ++
    padStart 2 (ms / 1000 % 60) ++ ['.'] ++ padStart 3 (ms % 1000) ++ ['Z']

example : toISOString 951827696789 = "2000-02-29T12:34:56.789Z".toList := by decide +kernel

def channelTimestamp (channelHeader : ChannelHeader) (required : Bool) : Except Thrown String :=
  match channelHeader.timestamp with
  | none => if required then fail "VALID Fabric transaction has no timestamp" else .ok ""
  | some ⟨seconds, nanos⟩ =>
      if !isSafeInteger seconds || nanos < 0 || 1000000000 ≤ nanos then
        fail "Transaction timestamp is malformed"
      else
        let time := seconds * 1000 + nanos / 1000000
        if time.natAbs > 8640000000000000 then
          fail "Transaction timestamp is outside the supported range"
        else
          let date := toISOString time
          if nanos = 0 then .ok (String.ofList date)
          else
            let fraction := ((padStart 9 nanos.toNat).reverse.dropWhile (· == '0')).reverse
            .ok (String.ofList (date.take 19 ++ ['.'] ++ fraction ++ ['Z']))

section

variable [Sha256]

/-! ## Transactions -/

def strictRecord (value : Option Value) (keys : List String) (label : String) :
    Except Thrown Fields :=
  match ownRecord value keys with
  | some record => .ok record
  | none => fail (label ++ " is malformed")

/-- `===` with a number or a string. -/
def isVersion (version : Str ⊕ Number) : Option Value → Bool
  | some (.str s) => version = .inl s
  | some (.num n) => version = .inr n
  | _ => false

def Reader.verifyBootstrap (reader : Reader) (value : Value) : Except Thrown Unit := do
  let marker ← strictRecord (some value) ["payload_digest", "result"] "bootstrap manifest"
  if !isString (marker.get "payload_digest") reader.genesisDigest then
    fail "Bootstrap manifest digest does not match pinned public genesis"
  else
    let result ← strictRecord (marker.get "result")
      ["status", "channel_id", "config_version", "membership_epoch", "role_binding_version"]
      "bootstrap result"
    let genesis := reader.genesis
    if !isString (result.get "status") "bootstrapped" ||
        !isString (result.get "channel_id") reader.channelId then
      fail "Bootstrap manifest result is not for this channel"
    else if !isVersion genesis.configVersion (result.get "config_version") ||
        !isVersion (.inr (.int genesis.membershipEpoch)) (result.get "membership_epoch") ||
        !isVersion (.inr (.int genesis.roleBindingVersion)) (result.get "role_binding_version") ||
        genesis.membershipEpoch < 1 || genesis.roleBindingVersion < 1 then
      fail "Bootstrap manifest result is malformed"
    else return ()

def Reader.valueForWrite (reader : Reader) (key : String) (value : List UInt8) :
    Except Thrown Value :=
  match StrictJson.parseStrictJson value with
  | .error _ => fail "State write is not strict JSON"
  | .ok parsed =>
      if key = bootstrapKey then do
        reader.verifyBootstrap parsed
        return parsed
      else do
        validateStateWrite (.wellFormed key) parsed
        if key = keyFor.config then
          let found ← checked (canonicalDigest parsed)
          if found ≠ reader.genesisDigest then
            fail "Config write does not match pinned public genesis"
        return parsed

/-- What the loop over the actions of a transaction keeps. -/
structure Collected where
  seenKeys : List String
  initialized : Bool
  writeset : List (String × Value)

def Reader.collectWrite (reader : Reader) (action : ChaincodeAction) (c : Collected)
    (write : KVWrite) : Except Thrown Collected :=
  if write.key = "" ∨ write.key ∈ c.seenKeys ∨ write.isDelete then
    fail "Delete or duplicate state write is not projectable"
  else if write.value = [] then fail "State write value is empty"
  else
    let c := { c with seenKeys := write.key :: c.seenKeys }
    if write.key = fabricInitializedKey then
      if write.value ≠ Utf8.encode reader.chaincodeVersion.toList ∨
          action.chaincodeId.map ChaincodeId.version ≠ some reader.chaincodeVersion then
        fail "Fabric Init marker has an unexpected chaincode version"
      else .ok { c with initialized := true }
    else do
      let value ← reader.valueForWrite write.key write.value
      return { c with writeset := c.writeset ++ [(write.key, value)] }

def Reader.collectNamespace (reader : Reader) (action : ChaincodeAction) (c : Collected)
    (ns : NsReadWriteSet) : Except Thrown Collected :=
  if ns.collectionHashedRwset ≠ [] then fail "Private data hashes are not projectable"
  else if ns.rwset = [] then .ok c
  else do
    let kv ← decode reader.kvRwset ns.rwset
    if kv.metadataWrites ≠ [] then fail "State metadata writes are not projectable"
    else if ns.namespaceName = reader.chaincodeName then
      kv.writes.foldlM (reader.collectWrite action) c
    else if kv.writes.isEmpty then return c
    else fail "Non-target namespace writes are not projectable"

def ChaincodeAction.chaincodeName (action : ChaincodeAction) : Except Thrown String :=
  match action.chaincodeId with
  | none => fail "Chaincode action has no chaincode identity"
  | some id =>
      if id.name = "" then fail "Chaincode action has no chaincode name" else .ok id.name

def Reader.collectAction (reader : Reader) (c : Collected) (payload : List UInt8) :
    Except Thrown Collected := do
  let actionPayload ← decode reader.actionPayload payload
  let some endorsed := actionPayload | fail "Endorser transaction has no chaincode action"
  let extension_ ← decode reader.responsePayload endorsed
  let action ← decode reader.action extension_
  let actionChaincode ← action.chaincodeName
  if actionChaincode ≠ reader.chaincodeName ∧ actionChaincode ≠ "_lifecycle" then
    fail "Transaction targets an unexpected chaincode"
  else if action.results = [] then return c
  else
    let rwset ← decode reader.rwset action.results
    if rwset.dataModel ≠ kvDataModel then fail "Unsupported Fabric state data model"
    else if actionChaincode = "_lifecycle" then
      if rwset.nsRwset.any fun ns => ns.namespaceName == reader.chaincodeName then
        fail "Lifecycle transaction contains a hidden Knowledger namespace"
      else return c
    else rwset.nsRwset.foldlM (reader.collectNamespace action) c

/-- The writes of an endorser transaction. -/
def Reader.collectWriteset (reader : Reader) (data : List UInt8) :
    Except Thrown (List (String × Value)) := do
  let actions ← decode reader.transaction data
  let c ← actions.foldlM reader.collectAction ⟨[], false, []⟩
  if c.initialized ∧ (bootstrapKey ∉ c.seenKeys ∨ keyFor.config ∉ c.seenKeys) then
    fail "Fabric Init marker requires the pinned Knowledger bootstrap in the same transaction"
  else return c.writeset

def Reader.decodeTransaction (reader : Reader) (data : List UInt8)
    (index validationCode : Nat) : Except Thrown DecodedTransaction := do
  let envelope ← decode reader.envelope data
  let payload ← decode reader.payload envelope
  let some header := payload.channelHeader | fail "Transaction payload has no header"
  let channelHeader ← decode reader.channelHeader header
  if channelHeader.channelId ≠ reader.channelId then
    fail "Fabric block contains a transaction for another channel"
  else if channelHeader.txId = "" ∧ channelHeader.type ≠ configType then
    fail "Transaction has no transaction ID"
  else
    let valid := validationCode == validCode
    let timestamp ← channelTimestamp channelHeader valid
    let writeset ←
      if valid && channelHeader.type == endorserTransaction then
        reader.collectWriteset payload.data
      else pure []
    return ⟨⟨channelHeader.txId, index, validationCode, valid, writeset.length, writeset,
      timestamp⟩, channelHeader.type⟩

/-- The loop over the entries of a block with their validation codes. -/
def Reader.decodeTransactions (reader : Reader) (blockNumber : Nat) :
    Nat → List String → List (List UInt8 × UInt8) → Except Thrown (List DecodedTransaction)
  | _, _, [] => .ok []
  | index, validTxIds, (data, code) :: entries => do
      if !reader.supported code.toNat then
        fail "Fabric transaction validation code is unknown or not final"
      else
        let t ← reader.decodeTransaction data index code.toNat
        if t.headerType ≠ endorserTransaction ∧ t.headerType ≠ configType then
          fail "Unsupported Fabric transaction header type"
        else if t.headerType = configType ∧ blockNumber ≠ 0 then
          fail "Configuration transactions after genesis are unsupported"
        else if t.valid ∧ t.txId ≠ "" ∧ t.txId ∈ validTxIds then
          fail "Fabric block contains duplicate VALID transaction IDs"
        else
          let validTxIds := if t.valid ∧ t.txId ≠ "" then t.txId :: validTxIds else validTxIds
          let rest ← reader.decodeTransactions blockNumber (index + 1) validTxIds entries
          return t :: rest

/-- A block with its three parts; the third entry of its metadata is the validation filter. -/
structure Block where
  header : BlockHeader
  data : List (List UInt8)
  filter : Option (List UInt8)

def Reader.readBlock (reader : Reader) (serialized : List UInt8) : Except Thrown Block := do
  let message ← decode reader.block serialized
  match message.header, message.data, message.metadata with
  | some header, some data, some metadata => return ⟨header, data, metadata[2]?⟩
  | _, _, _ => fail "Fabric block header, data, and metadata are required"

/-! ## Staging -/

/-- One write over the staged ones.  A fixed value is not replaced by another one. -/
def stageWrite (s : Store) (staged : Writes String Value) (e : String × Value) :
    Except Thrown (Writes String Value) := do
  if pinned e.1 then assertImmutable (staged.over s e.1) e.2
  let value ← checked (cloneCanonical e.2)
  return staged.set e.1 value

def stageTransaction (s : Store) (staged : Writes String Value) (t : DecodedTransaction) :
    Except Thrown (Writes String Value) := do
  if t.valid then
    let staged ← t.writeset.foldlM (stageWrite s) staged
    t.writeset.forM fun e =>
      if e.1 = bootstrapKey then .ok () else validateStateLinks (staged.over s) e.1 e.2
    return staged
  else return staged

/-! ## Preparing a block -/

/-- What `prepareBlock` checks of the header against the last checkpoint. -/
def checkHeader (latest : Option ProjectorCheckpoint) (number : Nat) (block : Block) :
    Except Thrown Unit :=
  match latest with
  | some checkpoint =>
      if number ≠ checkpoint.blockNumber + 1 then fail "Fabric block number is not contiguous"
      else if hexOctets (digest block.data.flatten).toList ≠ block.header.dataHash then
        fail "Fabric block data hash does not match"
      else if block.header.previousHash ≠ hexOctets checkpoint.blockHash.toList then
        fail "Fabric block previous hash does not match checkpoint"
      else .ok ()
  | none =>
      if number ≠ 0 then fail "Fabric block number is not contiguous"
      else if hexOctets (digest block.data.flatten).toList ≠ block.header.dataHash then
        fail "Fabric block data hash does not match"
      else if block.header.previousHash ≠ [] then fail "Genesis Fabric block has a previous hash"
      else .ok ()

/-- The transaction as the result names it: its values are copied. -/
def DecodedTransaction.projected (t : DecodedTransaction) :
    Except Thrown ProjectedTransaction := do
  let writeset ← t.writeset.mapM fun e => do
    let value ← checked (cloneCanonical e.2)
    return (e.1, value)
  return { t.toProjectedTransaction with writeset }

def Reader.prepareBlock (reader : Reader) (s : Store) (latest : Option ProjectorCheckpoint)
    (serialized : List UInt8) : Except Thrown (Writes String Value × ProjectBlockResult) := do
  let block ← reader.readBlock serialized
  match blockNumber block.header.number with
  | none => fail "Fabric block number is outside the supported range"
  | some number =>
      checkHeader latest number block
      match block.filter with
      | none => fail "Fabric transaction validation filter is missing or has the wrong length"
      | some filter =>
          if filter.length ≠ block.data.length then
            fail "Fabric transaction validation filter is missing or has the wrong length"
          else
            let transactions ← reader.decodeTransactions number 0 [] (block.data.zip filter)
            let staged ← transactions.foldlM (stageTransaction s) []
            let blockHash ← fabricBlockHeaderHash block.header
            let projected ← transactions.mapM DecodedTransaction.projected
            return (staged, {
              checkpoint := ⟨reader.channelId, number, blockHash, digest block.data.flatten⟩
              transactions := projected
              validTransactionIds :=
                (transactions.filter fun t => t.valid).map fun t => t.txId
              invalidTransactionIds :=
                (transactions.filter fun t => !t.valid).map fun t => t.txId })

/-! ## Projectors -/

/-- A checkpoint is an object: two of them may be equal and still not the same. -/
structure FabricBlockProjector where
  state : Store
  latest : Option (Nat × ProjectorCheckpoint)

def FabricBlockProjector.base (p : FabricBlockProjector) : Option Nat := p.latest.map Prod.fst

def FabricBlockProjector.checkpoint (p : FabricBlockProjector) : Option ProjectorCheckpoint :=
  p.latest.map Prod.snd

/-- A prepared block: the closure of its `commit`. -/
structure Prepared where
  owner : Nat
  base : Option Nat
  staged : Writes String Value
  checkpoint : Nat × ProjectorCheckpoint

structure World where
  projectors : List FabricBlockProjector
  prepared : List Prepared
  /-- The next object. -/
  next : Nat

def World.empty : World := ⟨[], [], 0⟩

inductive Op
  | create
  | fork (owner : Nat)
  | prepare (owner : Nat) (serialized : List UInt8)
  | commit (index : Nat)

/-- `commit` is refused when the projector is at another checkpoint object. -/
def Prepared.fits (b : Prepared) (p : FabricBlockProjector) : Bool := p.base == b.base

def World.commits (w : World) (index : Nat) : Option (Prepared × FabricBlockProjector) := do
  let b ← w.prepared[index]?
  let p ← w.projectors[b.owner]?
  if b.fits p then some (b, p) else none

/-- One operation; one that throws changes nothing. -/
def World.step (reader : Reader) (w : World) : Op → World
  | .create => { w with projectors := w.projectors ++ [⟨Store.empty, none⟩] }
  | .fork owner =>
      match w.projectors[owner]? with
      | none => w
      | some p =>
          { w with
            projectors := w.projectors ++ [⟨p.state, p.latest.map fun c => (w.next, c.2)⟩]
            next := w.next + 1 }
  | .prepare owner serialized =>
      match w.projectors[owner]? with
      | none => w
      | some p =>
          match reader.prepareBlock p.state p.checkpoint serialized with
          | .error _ => w
          | .ok (staged, result) =>
              { w with
                prepared := w.prepared ++ [⟨owner, p.base, staged, (w.next, result.checkpoint)⟩]
                next := w.next + 1 }
  | .commit index =>
      match w.commits index with
      | none => w
      | some (b, p) =>
          let committed : FabricBlockProjector := ⟨b.staged.over p.state, some b.checkpoint⟩
          { w with projectors := w.projectors.set b.owner committed }

def World.run (reader : Reader) (w : World) (ops : List Op) : World :=
  ops.foldl (World.step reader) w

end

/-! ## Chains of blocks -/

/-- The writes of the valid transactions, in order. -/
def validWrites (transactions : List DecodedTransaction) : List (String × Value) :=
  (transactions.filter fun t => t.valid).flatMap fun t => t.writeset

/-- The store after the writes, each with its properties sorted. -/
def applyWrites (s : Store) (writes : List (String × Value)) : Store :=
  writes.foldl (fun s e => Function.update s e.1 (some e.2.normalize)) s

/-- The block follows the checkpoint, and this is its own one. -/
structure Follows (channelId : String) (latest : Option ProjectorCheckpoint) (block : Block)
    (checkpoint : ProjectorCheckpoint) : Prop where
  number : blockNumber block.header.number = some checkpoint.blockNumber
  contiguous : checkpoint.blockNumber = latest.elim 0 fun c => c.blockNumber + 1
  previous : block.header.previousHash = latest.elim [] fun c => hexOctets c.blockHash.toList
  data : block.header.dataHash = hexOctets checkpoint.dataHash.toList
  digest : checkpoint.dataHash = digest block.data.flatten
  hash : fabricBlockHeaderHash block.header = .ok checkpoint.blockHash
  channel : checkpoint.channelId = channelId

/-- A chain of blocks from the first one, with the store and the checkpoint it leads to. -/
inductive Chain [Sha256] (reader : Reader) :
    List Block → Store → Option ProjectorCheckpoint → Prop
  | nil : Chain reader [] Store.empty none
  | snoc {blocks : List Block} {s : Store} {latest : Option ProjectorCheckpoint} {block : Block}
      {filter : List UInt8} {transactions : List DecodedTransaction}
      {checkpoint : ProjectorCheckpoint}
      (before : Chain reader blocks s latest)
      (follows : Follows reader.channelId latest block checkpoint)
      (filtered : block.filter = some filter ∧ filter.length = block.data.length)
      (decoded : reader.decodeTransactions checkpoint.blockNumber 0 [] (block.data.zip filter) =
        .ok transactions)
      (kept : ∀ key value, pinned key = true → s key = some value →
        applyWrites s (validWrites transactions) key = some value) :
      Chain reader (blocks ++ [block]) (applyWrites s (validWrites transactions))
        (some checkpoint)

/-! ## Staged writes -/

/-- Every stored value has its properties sorted. -/
def Normal (s : Store) : Prop := ∀ key value, s key = some value → value.normalize = value

/-- Fixed values stay. -/
def Kept (s t : Store) : Prop :=
  ∀ key value, pinned key = true → s key = some value → t key = some value

theorem Kept.trans {s t u : Store} (first : Kept s t) (second : Kept t u) : Kept s u :=
  fun key value fixed stored => second key value fixed (first key value fixed stored)

theorem applyWrites_append (s : Store) (writes more : List (String × Value)) :
    applyWrites s (writes ++ more) = applyWrites (applyWrites s writes) more :=
  List.foldl_append

theorem Normal.applyWrites {s : Store} (normal : Normal s) (writes : List (String × Value)) :
    Normal (applyWrites s writes) := by
  induction writes generalizing s with
  | nil => exact normal
  | cons e writes ih =>
      refine ih fun key value stored => ?_
      change Function.update s e.1 (some e.2.normalize) key = some value at stored
      by_cases here : key = e.1
      · subst here
        rw [Function.update_self] at stored
        rw [← Option.some.inj stored, Value.normalize_normalize]
      · rw [Function.update_of_ne here] at stored
        exact normal key value stored

section Staging

variable [Sha256] {s : Store} {staged staged' : Writes String Value}

/-- From one buffer to another the writes are applied, and fixed values stay. -/
structure Stages (s : Store) (staged staged' : Writes String Value)
    (writes : List (String × Value)) : Prop where
  written : staged'.over s = applyWrites (staged.over s) writes
  kept : Kept (staged.over s) (staged'.over s)

omit [Sha256] in
theorem Stages.nil : Stages s staged staged [] := ⟨rfl, fun _ _ _ stored => stored⟩

omit [Sha256] in
theorem Stages.append {next : Writes String Value} {writes more : List (String × Value)}
    (first : Stages s staged next writes) (second : Stages s next staged' more) :
    Stages s staged staged' (writes ++ more) where
  written := by rw [second.written, first.written, applyWrites_append]
  kept := first.kept.trans second.kept

omit [Sha256] in
theorem Stages.normal {writes : List (String × Value)} (stages : Stages s staged staged' writes)
    (normal : Normal (staged.over s)) : Normal (staged'.over s) := by
  rw [stages.written]
  exact normal.applyWrites writes

omit [Sha256] in
/-- A value that may stay has the canonical text of the stored one. -/
theorem assertImmutable_ok {prior value : Value}
    (run : assertImmutable (some prior) value = .ok ()) :
    ∃ text, canonicalize prior = .ok text ∧ canonicalize value = .ok text := by
  rw [assertImmutable] at run
  cases before : canonicalize prior with
  | error thrown =>
      rw [before] at run
      cases run
  | ok text =>
      cases after : canonicalize value with
      | error thrown =>
          rw [before, after] at run
          cases run
      | ok text' =>
          rw [before, after] at run
          change (if text = text' then _ else _) = _ at run
          split_ifs at run with same
          · exact ⟨text, rfl, by rw [same]⟩

omit [Sha256] in
theorem copyWrite_ok {e : String × Value}
    (run : (checked (cloneCanonical e.2) >>= fun value => pure (staged.set e.1 value)) =
      .ok staged') :
    staged' = staged.set e.1 e.2.normalize := by
  obtain ⟨value, copied, last⟩ := bind_ok.mp run
  cases cloned : cloneCanonical e.2 with
  | error thrown =>
      rw [cloned] at copied
      cases copied
  | ok found =>
      rw [cloned] at copied
      obtain rfl := Except.ok.inj copied
      rw [← cloneCanonical_ok cloned]
      exact (Except.ok.inj last).symm

omit [Sha256] in
theorem stageWrite_ok {e : String × Value} (normal : Normal (staged.over s))
    (run : stageWrite s staged e = .ok staged') : Stages s staged staged' [e] := by
  obtain ⟨rfl, fixed⟩ : staged' = staged.set e.1 e.2.normalize ∧ (pinned e.1 = true →
      ∀ prior, staged.over s e.1 = some prior → prior = e.2.normalize) := by
    rw [stageWrite] at run
    cases is : pinned e.1 with
    | false =>
        rw [is] at run
        exact ⟨copyWrite_ok run, fun fixed => by cases fixed⟩
    | true =>
        rw [is, if_pos rfl] at run
        obtain ⟨_, passed, last⟩ := bind_ok.mp run
        refine ⟨copyWrite_ok last, fun _ prior stored => ?_⟩
        rw [stored] at passed
        obtain ⟨text, before, after⟩ := assertImmutable_ok passed
        rw [← canonicalize_inj before after, normal e.1 prior stored]
  have written : (staged.set e.1 e.2.normalize).over s =
      Function.update (staged.over s) e.1 (some e.2.normalize) := Writes.over_set
  refine ⟨written, fun key v is stored => ?_⟩
  rw [written]
  by_cases here : key = e.1
  · subst here
    rw [Function.update_self, fixed is v stored]
  · rw [Function.update_of_ne here, stored]

omit [Sha256] in
theorem stageWrites_ok {writes : List (String × Value)} (normal : Normal (staged.over s))
    (run : writes.foldlM (stageWrite s) staged = .ok staged') :
    Stages s staged staged' writes := by
  induction writes generalizing staged with
  | nil =>
      cases run
      exact .nil
  | cons e writes ih =>
      rw [List.foldlM_cons] at run
      obtain ⟨next, first, rest⟩ := bind_ok.mp run
      have stages := stageWrite_ok normal first
      exact stages.append (ih (stages.normal normal) rest)

theorem stageTransaction_ok {t : DecodedTransaction} (normal : Normal (staged.over s))
    (run : stageTransaction s staged t = .ok staged') :
    Stages s staged staged' (validWrites [t]) := by
  rw [stageTransaction] at run
  cases valid : t.valid with
  | false =>
      rw [valid] at run
      obtain rfl := Except.ok.inj run
      have nothing : validWrites [t] = [] := by
        rw [validWrites, List.filter_cons, valid]
        rfl
      rw [nothing]
      exact .nil
  | true =>
      have writes : validWrites [t] = t.writeset := by
        rw [validWrites, List.filter_cons, valid]
        exact List.append_nil _
      rw [writes]
      rw [valid, if_pos rfl] at run
      obtain ⟨next, first, checks⟩ := bind_ok.mp run
      obtain ⟨_, linked, last⟩ := bind_ok.mp checks
      obtain rfl := Except.ok.inj last
      exact stageWrites_ok normal first

/-- The staged writes of a block are those of its valid transactions. -/
theorem stage_ok {transactions : List DecodedTransaction} (normal : Normal (staged.over s))
    (run : transactions.foldlM (stageTransaction s) staged = .ok staged') :
    Stages s staged staged' (validWrites transactions) := by
  induction transactions generalizing staged with
  | nil =>
      cases run
      exact .nil
  | cons t transactions ih =>
      rw [List.foldlM_cons] at run
      obtain ⟨next, first, rest⟩ := bind_ok.mp run
      have split : validWrites (t :: transactions) =
          validWrites [t] ++ validWrites transactions := by
        rw [validWrites, validWrites, validWrites, ← List.flatMap_append, ← List.filter_append,
          List.singleton_append]
      have stages := stageTransaction_ok normal first
      rw [split]
      exact stages.append (ih (stages.normal normal) rest)

end Staging

/-! ## Prepared blocks -/

section Preparing

variable [Sha256] {reader : Reader} {s : Store} {latest : Option ProjectorCheckpoint}

theorem Chain.normal {blocks : List Block} (chain : Chain reader blocks s latest) : Normal s := by
  induction chain with
  | nil =>
      intro key value stored
      cases stored
  | snoc before follows filtered decoded kept ih => exact ih.applyWrites _

omit [Sha256] in
/-- A block that passes follows the checkpoint. -/
theorem checkHeader_ok {number : Nat} {block : Block}
    (run : checkHeader latest number block = .ok ()) :
    number = (latest.elim 0 fun c => c.blockNumber + 1) ∧
      block.header.previousHash = (latest.elim [] fun c => hexOctets c.blockHash.toList) ∧
      block.header.dataHash = hexOctets (digest block.data.flatten).toList := by
  cases latest with
  | none =>
      rw [checkHeader] at run
      split_ifs at run with contiguous data previous
      · cases run
      · cases run
      · cases run
      · exact ⟨not_not.mp contiguous, not_not.mp previous, (not_not.mp data).symm⟩
  | some checkpoint =>
      rw [checkHeader] at run
      split_ifs at run with contiguous data previous
      · cases run
      · cases run
      · cases run
      · exact ⟨not_not.mp contiguous, not_not.mp previous, (not_not.mp data).symm⟩

/-- **A prepared block extends the chain** of the projector that it was prepared on. -/
theorem prepareBlock_ok {blocks : List Block} (chain : Chain reader blocks s latest)
    {serialized : List UInt8} {staged : Writes String Value} {result : ProjectBlockResult}
    (run : reader.prepareBlock s latest serialized = .ok (staged, result)) :
    ∃ block, Chain reader (blocks ++ [block]) (staged.over s) (some result.checkpoint) := by
  rw [Reader.prepareBlock] at run
  obtain ⟨block, read, checks⟩ := bind_ok.mp run
  refine ⟨block, ?_⟩
  cases counted : blockNumber block.header.number with
  | none =>
      rw [counted] at checks
      cases checks
  | some number =>
      rw [counted] at checks
      obtain ⟨_, header, reads⟩ := bind_ok.mp checks
      obtain ⟨contiguous, previous, data⟩ := checkHeader_ok header
      cases filtered : block.filter with
      | none =>
          rw [filtered] at reads
          cases reads
      | some filter =>
          rw [filtered] at reads
          change (if filter.length ≠ block.data.length then _ else _) = _ at reads
          by_cases length : filter.length = block.data.length
          · rw [if_neg (not_not.mpr length)] at reads
            obtain ⟨transactions, decoded, staging⟩ := bind_ok.mp reads
            obtain ⟨buffer, folded, hashing⟩ := bind_ok.mp staging
            obtain ⟨blockHash, hashed, naming⟩ := bind_ok.mp hashing
            obtain ⟨projected, -, last⟩ := bind_ok.mp naming
            obtain ⟨rfl, rfl⟩ := Prod.ext_iff.mp (Except.ok.inj last)
            have normal : Normal (Writes.over [] s) := by
              rw [Writes.over_nil]
              exact chain.normal
            obtain ⟨written, kept⟩ := stage_ok normal folded
            rw [written, Writes.over_nil] at kept
            rw [written, Writes.over_nil]
            exact chain.snoc ⟨counted, contiguous, previous, data, rfl, hashed, rfl⟩
              ⟨filtered, length⟩ decoded kept
          · rw [if_pos length] at reads
            cases reads

end Preparing

/-! ## Runs -/

/-- The order in which objects are made; no object comes first. -/
def rank (object : Option Nat) : Nat := object.elim 0 (· + 1)

section Runs

variable [Sha256] {reader : Reader} {w : World}

/-- A chain leads to what the projector holds. -/
def FabricBlockProjector.Chained (reader : Reader) (p : FabricBlockProjector) : Prop :=
  ∃ blocks, Chain reader blocks p.state p.checkpoint

/-- The projector that a prepared block belongs to has gone at least as far as its base; while it
is at the base, the block extends its chain. -/
structure Prepared.Pending (reader : Reader) (b : Prepared) (p : FabricBlockProjector) : Prop where
  reached : rank b.base ≤ rank p.base
  grows : p.base = b.base →
    FabricBlockProjector.Chained reader ⟨b.staged.over p.state, some b.checkpoint⟩

structure World.Sound (reader : Reader) (w : World) : Prop where
  chained : ∀ p ∈ w.projectors, p.Chained reader ∧ rank p.base ≤ w.next
  prepared : ∀ b ∈ w.prepared, rank b.base ≤ b.checkpoint.1 ∧ b.checkpoint.1 < w.next ∧
    ∃ p, w.projectors[b.owner]? = some p ∧ b.Pending reader p

theorem World.Sound.empty : World.empty.Sound reader :=
  ⟨List.forall_mem_nil _, List.forall_mem_nil _⟩

/-- One more projector. -/
theorem World.Sound.add (sound : w.Sound reader) {p : FabricBlockProjector} {next : Nat}
    (chained : p.Chained reader) (made : rank p.base ≤ next) (later : w.next ≤ next) :
    World.Sound reader { w with projectors := w.projectors ++ [p], next } where
  chained := by
    rw [List.forall_mem_append, List.forall_mem_singleton]
    refine ⟨fun q mem => ?_, chained, made⟩
    obtain ⟨held, bound⟩ := sound.chained q mem
    exact ⟨held, bound.trans later⟩
  prepared b mem := by
    obtain ⟨own, fresh, q, found, pending⟩ := sound.prepared b mem
    refine ⟨own, Nat.lt_of_lt_of_le fresh later, q, ?_, pending⟩
    rw [List.getElem?_append_left (List.getElem?_eq_some_iff.mp found).1, found]

omit [Sha256] in
theorem World.commits_ok {index : Nat} {b : Prepared} {p : FabricBlockProjector} :
    w.commits index = some (b, p) ↔ w.prepared[index]? = some b ∧
      w.projectors[b.owner]? = some p ∧ p.base = b.base := by
  rw [World.commits]
  cases w.prepared[index]? with
  | none => simp
  | some c =>
      cases found : w.projectors[c.owner]? with
      | none =>
          simp only [Option.bind_eq_bind, Option.bind_some, found]
          constructor
          · intro none
            cases none
          · rintro ⟨same, other, -⟩
            obtain rfl := Option.some.inj same
            rw [found] at other
            cases other
      | some q =>
          simp only [Option.bind_eq_bind, Option.bind_some, found, Prepared.fits, beq_iff_eq]
          constructor
          · intro same
            split_ifs at same with fits
            cases same
            exact ⟨rfl, found, fits⟩
          · rintro ⟨same, here, fits⟩
            obtain rfl := Option.some.inj same
            rw [found] at here
            obtain rfl := Option.some.inj here
            exact if_pos fits

theorem World.Sound.fork (sound : w.Sound reader) (owner : Nat) :
    (w.step reader (.fork owner)).Sound reader := by
  rw [World.step]
  cases found : w.projectors[owner]? with
  | none => exact sound
  | some p =>
      obtain ⟨blocks, chain⟩ := (sound.chained p (List.mem_of_getElem? found)).1
      refine sound.add ⟨blocks, ?_⟩ ?_ (Nat.le_succ _)
      · have same : (⟨p.state, p.latest.map fun c => (w.next, c.2)⟩ :
            FabricBlockProjector).checkpoint = p.checkpoint := by
          rw [FabricBlockProjector.checkpoint, FabricBlockProjector.checkpoint, Option.map_map]
          rfl
        rw [same]
        exact chain
      · rw [FabricBlockProjector.base, Option.map_map]
        cases p.latest with
        | none => exact Nat.zero_le _
        | some c => exact Nat.le_refl _

theorem World.Sound.prepare (sound : w.Sound reader) (owner : Nat) (serialized : List UInt8) :
    (w.step reader (.prepare owner serialized)).Sound reader := by
  rw [World.step]
  cases found : w.projectors[owner]? with
  | none => exact sound
  | some p =>
      cases run : reader.prepareBlock p.state p.checkpoint serialized with
      | error thrown => simpa only [run] using sound
      | ok outcome =>
          obtain ⟨staged, result⟩ := outcome
          simp only [run]
          obtain ⟨⟨blocks, chain⟩, bound⟩ := sound.chained p (List.mem_of_getElem? found)
          obtain ⟨block, longer⟩ := prepareBlock_ok chain run
          constructor
          · intro q mem
            obtain ⟨held, made⟩ := sound.chained q mem
            exact ⟨held, made.trans (Nat.le_succ _)⟩
          · rw [List.forall_mem_append, List.forall_mem_singleton]
            refine ⟨fun b mem => ?_, bound, Nat.lt_succ_self _, p, found, Nat.le_refl _,
              fun _ => ⟨_, longer⟩⟩
            obtain ⟨own, fresh, pending⟩ := sound.prepared b mem
            exact ⟨own, Nat.lt_succ_of_lt fresh, pending⟩

/-- The other blocks that were prepared on the same checkpoint are then behind it. -/
theorem World.Sound.commit (sound : w.Sound reader) (index : Nat) :
    (w.step reader (.commit index)).Sound reader := by
  rw [World.step]
  rcases committed : w.commits index with _ | ⟨b, p⟩
  · exact sound
  · obtain ⟨listed, found, fits⟩ := World.commits_ok.mp committed
    obtain ⟨own, fresh, q, here, pending⟩ := sound.prepared b (List.mem_of_getElem? listed)
    rw [found] at here
    obtain rfl := Option.some.inj here
    have bound := (List.getElem?_eq_some_iff.mp found).1
    constructor
    · intro q mem
      rcases List.mem_or_eq_of_mem_set mem with old | rfl
      · exact sound.chained q old
      · exact ⟨pending.grows fits, fresh⟩
    · intro c mem
      obtain ⟨own', fresh', q, here, pending'⟩ := sound.prepared c mem
      refine ⟨own', fresh', ?_⟩
      by_cases same : b.owner = c.owner
      · rw [← same] at here ⊢
        rw [found] at here
        obtain rfl := Option.some.inj here
        have reached := pending'.reached
        rw [fits] at reached
        refine ⟨_, List.getElem?_set_self bound, ?_, fun base => ?_⟩
        · exact reached.trans (own.trans (Nat.le_succ _))
        · -- a block is not prepared on a checkpoint before that one is committed
          rw [← base] at reached
          exact absurd (reached.trans own) (Nat.not_succ_le_self _)
      · exact ⟨q, by rw [List.getElem?_set_ne same, here], pending'⟩

/-- **Every operation keeps the world sound.** -/
theorem World.Sound.step (sound : w.Sound reader) (op : Op) :
    (w.step reader op).Sound reader := by
  cases op with
  | create => exact sound.add ⟨[], .nil⟩ (Nat.zero_le _) (Nat.le_refl _)
  | fork owner => exact sound.fork owner
  | prepare owner serialized => exact sound.prepare owner serialized
  | commit index => exact sound.commit index

theorem World.Sound.run (sound : w.Sound reader) (ops : List Op) :
    (w.run reader ops).Sound reader := by
  induction ops generalizing w with
  | nil => exact sound
  | cons op ops ih => exact ih (sound.step op)

/-- The projector of the prepared block is behind its base: the block is not committed again. -/
def World.Spent (w : World) (index : Nat) : Prop :=
  ∃ b p, w.prepared[index]? = some b ∧ w.projectors[b.owner]? = some p ∧ rank b.base < rank p.base

omit [Sha256] in
theorem World.Spent.refused {index : Nat} (spent : w.Spent index) : w.commits index = none := by
  obtain ⟨b, p, listed, found, passed⟩ := spent
  rcases committed : w.commits index with _ | ⟨c, q⟩
  · rfl
  · obtain ⟨listed', found', fits⟩ := World.commits_ok.mp committed
    rw [listed] at listed'
    obtain rfl := Option.some.inj listed'
    rw [found] at found'
    obtain rfl := Option.some.inj found'
    rw [fits] at passed
    exact absurd passed (Nat.lt_irrefl _)

theorem World.Spent.step (sound : w.Sound reader) {index : Nat} (spent : w.Spent index)
    (op : Op) : (w.step reader op).Spent index := by
  obtain ⟨b, p, listed, found, passed⟩ := spent
  have inside := (List.getElem?_eq_some_iff.mp found).1
  have known := (List.getElem?_eq_some_iff.mp listed).1
  cases op with
  | create =>
      exact ⟨b, p, listed, by rw [World.step, List.getElem?_append_left inside, found], passed⟩
  | fork owner =>
      rw [World.step]
      cases w.projectors[owner]? with
      | none => exact ⟨b, p, listed, found, passed⟩
      | some q => exact ⟨b, p, listed, by rw [List.getElem?_append_left inside, found], passed⟩
  | prepare owner serialized =>
      rw [World.step]
      cases w.projectors[owner]? with
      | none => exact ⟨b, p, listed, found, passed⟩
      | some q =>
          cases run : reader.prepareBlock q.state q.checkpoint serialized with
          | error thrown => simpa only [run] using ⟨b, p, listed, found, passed⟩
          | ok outcome =>
              simp only [run]
              exact ⟨b, p, by rw [List.getElem?_append_left known, listed], found, passed⟩
  | commit other =>
      rw [World.step]
      cases committed : w.commits other with
      | none => exact ⟨b, p, listed, found, passed⟩
      | some both =>
          obtain ⟨c, q⟩ := both
          obtain ⟨listed', found', fits⟩ := World.commits_ok.mp committed
          obtain ⟨own, -⟩ := sound.prepared c (List.mem_of_getElem? listed')
          by_cases same : c.owner = b.owner
          · rw [same, found] at found'
            obtain rfl := Option.some.inj found'
            refine ⟨b, ⟨c.staged.over p.state, some c.checkpoint⟩, listed, ?_, ?_⟩
            · exact (congrArg (fun owner => (w.projectors.set owner _)[b.owner]?) same).trans
                (List.getElem?_set_self inside)
            · rw [fits] at passed
              exact passed.trans (Nat.lt_succ_of_le own)
          · exact ⟨b, p, listed, (List.getElem?_set_ne same).trans found, passed⟩

/-- A committed block is spent. -/
theorem World.Sound.spent (sound : w.Sound reader) {index : Nat} {b : Prepared}
    {p : FabricBlockProjector} (committed : w.commits index = some (b, p)) :
    (w.step reader (.commit index)).Spent index := by
  obtain ⟨listed, found, fits⟩ := World.commits_ok.mp committed
  obtain ⟨own, -⟩ := sound.prepared b (List.mem_of_getElem? listed)
  rw [World.step, committed]
  exact ⟨b, _, listed, List.getElem?_set_self (List.getElem?_eq_some_iff.mp found).1,
    Nat.lt_succ_of_le own⟩

/-- **A prepared block is committed at most once**, whatever is done in between. -/
theorem prepared_once (reader : Reader) (before between : List Op) (index : Nat) :
    (World.empty.run reader before).commits index = none ∨
      (World.empty.run reader (before ++ .commit index :: between)).commits index = none := by
  rcases committed : (World.empty.run reader before).commits index with _ | ⟨b, p⟩
  · exact .inl rfl
  · right
    have sound : (World.empty.run reader before).Sound reader := World.Sound.empty.run before
    have spent := sound.spent committed
    have next := sound.step (.commit index)
    rw [World.run, List.foldl_append, List.foldl_cons]
    change (World.run reader ((World.empty.run reader before).step reader (.commit index))
      between).commits index = none
    generalize (World.empty.run reader before).step reader (.commit index) = w at spent next
    refine World.Spent.refused ?_
    induction between generalizing w with
    | nil => exact spent
    | cons op between ih => exact ih _ (spent.step next op) (next.step op)

/-! ## Chains -/

/-- Fixed values never change along a chain. -/
theorem Chain.kept {blocks before after : List Block} {s : Store}
    {latest : Option ProjectorCheckpoint} (chain : Chain reader blocks s latest)
    (split : blocks = before ++ after) :
    ∃ t earlier, Chain reader before t earlier ∧ Kept t s := by
  induction chain generalizing after with
  | nil =>
      obtain ⟨rfl, rfl⟩ := List.append_eq_nil_iff.mp split.symm
      exact ⟨Store.empty, none, .nil, fun _ _ _ stored => stored⟩
  | @snoc blocks s latest block filter transactions checkpoint chain follows filtered decoded kept
      ih =>
      induction after using List.reverseRecOn with
      | nil =>
          rw [List.append_nil] at split
          rw [← split]
          exact ⟨_, _, chain.snoc follows filtered decoded kept, fun _ _ _ stored => stored⟩
      | append_singleton after last =>
          rw [← List.append_assoc] at split
          obtain ⟨same, -⟩ := List.append_inj' split rfl
          obtain ⟨t, earlier, first, more⟩ := ih same
          exact ⟨t, earlier, first, more.trans kept⟩

omit [Sha256] in
theorem Follows.unique {channelId : String} {latest : Option ProjectorCheckpoint} {block : Block}
    {c d : ProjectorCheckpoint} (first : Follows channelId latest block c)
    (second : Follows channelId latest block d) : c = d := by
  obtain ⟨channel, number, hash, data⟩ := c
  obtain ⟨channel', number', hash', data'⟩ := d
  obtain rfl : channel = channel' := first.channel.trans second.channel.symm
  obtain rfl : number = number' := first.contiguous.trans second.contiguous.symm
  obtain rfl : hash = hash' := Except.ok.inj (first.hash.symm.trans second.hash)
  obtain rfl : data = data' := first.digest.trans second.digest.symm
  rfl

/-- The blocks determine what a chain leads to. -/
theorem Chain.unique {blocks : List Block} {s t : Store}
    {latest other : Option ProjectorCheckpoint} (first : Chain reader blocks s latest)
    (second : Chain reader blocks t other) : s = t ∧ latest = other := by
  induction first generalizing t other with
  | nil =>
      generalize none : ([] : List Block) = blocks at second
      cases second with
      | nil => exact ⟨rfl, rfl⟩
      | snoc =>
          exact absurd none.symm (List.append_ne_nil_of_right_ne_nil _ (List.cons_ne_nil _ _))
  | @snoc blocks s latest block filter transactions checkpoint before follows filtered decoded
      kept ih =>
      generalize same : blocks ++ [block] = all at second
      cases second with
      | nil => exact absurd same (List.append_ne_nil_of_right_ne_nil _ (List.cons_ne_nil _ _))
      | snoc before' follows' filtered' decoded' kept' =>
          obtain ⟨rfl, here⟩ := List.append_inj' same rfl
          obtain rfl := (List.cons.inj here).1
          obtain ⟨rfl, rfl⟩ := ih before'
          obtain rfl := follows.unique follows'
          obtain rfl := Option.some.inj (filtered.1.symm.trans filtered'.1)
          obtain rfl := Except.ok.inj (decoded.symm.trans decoded')
          exact ⟨rfl, rfl⟩

end Runs

/-! ## A projector at its first block -/

namespace Demo

@[reducible] local instance projectorSha256 : Sha256 := Knowledger.Demo.sha256

/-- The header of a first block. -/
def genesisHeader (dataHash : List UInt8) : BlockHeader := ⟨.int 0, [], dataHash⟩

/-- Every text is a first block without transactions; there are no other messages. -/
def reader (dataHash : List UInt8) : Reader where
  block _ := some ⟨some (genesisHeader dataHash), some [], some [[], [], []]⟩
  envelope _ := none
  payload _ := none
  channelHeader _ := none
  transaction _ := none
  actionPayload _ := none
  responsePayload _ := none
  action _ := none
  rwset _ := none
  kvRwset _ := none
  supported _ := true
  channelId := "channel-1"
  chaincodeName := "knowledger"
  chaincodeVersion := "0.1.0"
  genesis := ⟨.inr (.int 1), 1, 1⟩
  genesisDigest := ""

end Demo

end Knowledger.Projector
