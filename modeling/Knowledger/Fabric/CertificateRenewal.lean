import Knowledger.Checks
import Knowledger.Lib.Sha256

/-!
# Certificate renewal

`applyRenewal` over the files of the state directory.  Every `atomicWrite` takes its fault from a
list, so that an attempt is run under any failure of its writes and under a stop of the process
before or after any of them; between two writes the directory does not change.  Paths are relative
to the state directory.  Preflight recognises every target that holds its old or its new
certificate (`preflightApply_inspected`, `preflightApply_drift`).
-/

namespace Knowledger.Fabric.Renewal

open Js

/-! ## Files -/

abbrev Text := List Char

inductive Status
  | prepared
  | applied
  deriving DecidableEq

structure RenewalPlanCertificate where
  org_id : Text
  domain : Text
  target_path : Text
  old_cert_path : Text
  csr_path : Text
  new_cert_path : Text
  old_sha256 : Text
  new_sha256 : Text
  ca_sha256 : Text
  old_valid_to : Text
  new_valid_to : Text
  deriving DecidableEq

/-- The plan that `plan.json` spells. -/
structure RenewalPlan where
  status : Status
  created_at : Text
  days : Int
  renew_before_days : Int
  channel_block_sha256 : Text
  certificates : List RenewalPlanCertificate
  applied_at : Option Text
  deriving DecidableEq

/-- The state directory: its files by path, and the plan in the stage directory. -/
structure Disk where
  files : Text → Option (List UInt8)
  plan : RenewalPlan

def Disk.put (path : Text) (bytes : List UInt8) (disk : Disk) : Disk :=
  { disk with files := fun other => if other = path then some bytes else disk.files other }

def Disk.record (plan : RenewalPlan) (disk : Disk) : Disk := { disk with plan := plan }

@[simp] theorem Disk.put_plan (path : Text) (bytes : List UInt8) (disk : Disk) :
    (disk.put path bytes).plan = disk.plan := rfl

@[simp] theorem Disk.put_same (path : Text) (bytes : List UInt8) (disk : Disk) :
    (disk.put path bytes).files path = some bytes := if_pos rfl

theorem Disk.put_other {path other : Text} (different : other ≠ path) (bytes : List UInt8)
    (disk : Disk) : (disk.put path bytes).files other = disk.files other := if_neg different

@[simp] theorem Disk.record_plan (plan : RenewalPlan) (disk : Disk) :
    (disk.record plan).plan = plan := rfl

@[simp] theorem Disk.record_files (plan : RenewalPlan) (disk : Disk) :
    (disk.record plan).files = disk.files := rfl

/-! ## Failures -/

/-- The code of a `CertificateMaintenanceError`. -/
inductive Code
  /-- What the state directory, the X.509 library or a key is refused with. -/
  | material (code : String)
  | invalidState
  | fileTooLarge
  | invalidArgument
  | invalidPlan
  | genesisDrift
  | caDrift
  | planDrift
  | invalidGenesis
  | invalidCertificate
  | keyMismatch
  | targetDrift
  | applyFailed
  | rollbackFailed
  deriving DecidableEq

/-- What happens to one `atomicWrite`: `write` fails it before its rename took effect, `sync` in
the `fsync` of the directory, and a stop ends the process before or after the rename. -/
inductive Fault
  | none
  | write
  | sync
  | stopBefore
  | stopAfter
  deriving DecidableEq

/-- How a step ends that does not return. -/
inductive Halt
  | io
  | maintenance (code : Code)
  | stopped
  deriving DecidableEq

def Fault.renames : Fault → Bool
  | none | sync | stopAfter => true
  | write | stopBefore => false

def Fault.result : Fault → Except Halt Unit
  | none => .ok ()
  | write | sync => .error .io
  | stopBefore | stopAfter => .error .stopped

structure World where
  disk : Disk
  /-- The faults of the writes to come; past its end no write fails. -/
  faults : List Fault

def World.fault (w : World) (n : Nat) : Fault := w.faults.getD n .none

/-- The temporary file is left out: its name is fresh and nothing reads it. -/
def atomicWrite (replace : Disk → Disk) (w : World) : Except Halt Unit × World :=
  ((w.fault 0).result,
    { disk := if (w.fault 0).renames then replace w.disk else w.disk, faults := w.faults.drop 1 })

/-! ## Reading -/

def MAX_CERT_BYTES : Nat := 64 * 1024
def MAX_PLAN_BYTES : Nat := 256 * 1024
def MAX_BLOCK_BYTES : Nat := 32 * 1024 * 1024
def MAX_DAYS : Int := 365
def DAY_MS : Int := 24 * 60 * 60 * 1000

/-- `if (condition) fail(code)`. -/
def failIf (condition : Bool) (code : Code) : Except Code Unit :=
  if condition then .error code else .ok ()

def readBounded (files : Text → Option (List UInt8)) (path : Text) (maxBytes : Nat) :
    Except Code (List UInt8) :=
  match files path with
  | none => .error .invalidState
  | some bytes => do
    failIf (maxBytes < bytes.length) .fileTooLarge
    return bytes

def sha256 (bytes : List UInt8) : Text := Sha2.hexDigest (bytes.map UInt8.toNat)

structure ProfilePaths where
  org_id : Text
  actor_id : Text
  domain : Text
  user : Text
  cert : Text
  keystore : Text
  ca_cert : Text
  ca_msp_cert : Text
  ca_keystore : Text
  deriving DecidableEq

/-- `org_id`, `key_id` and `domain` of each organization. -/
def DEVELOPMENT_ORGANIZATIONS : List (Text × Text × Text) :=
  [("SalesMSP".toList, "person-sales-owner".toList, "sales".toList),
    ("FulfillmentMSP".toList, "person-fulfillment-owner".toList, "fulfillment".toList),
    ("SettlementMSP".toList, "person-settlement-owner".toList, "settlement".toList)]

def profilePaths : List ProfilePaths :=
  DEVELOPMENT_ORGANIZATIONS.map fun (org_id, key_id, name) =>
    let domain := name ++ ".kcl.test".toList
    let organization := "crypto/peerOrganizations/".toList ++ domain
    let user := "User1@".toList ++ domain
    { org_id
      actor_id := key_id
      domain
      user
      cert := organization ++ "/users/".toList ++ user ++ "/msp/signcerts/".toList ++ user ++
        "-cert.pem".toList
      keystore := organization ++ "/users/".toList ++ user ++ "/msp/keystore".toList
      ca_cert := organization ++ "/ca/ca.".toList ++ domain ++ "-cert.pem".toList
      ca_msp_cert := organization ++ "/msp/cacerts/ca.".toList ++ domain ++ "-cert.pem".toList
      ca_keystore := organization ++ "/ca".toList }

/-- `join(stage, stageName(paths, suffix))`. -/
def stagePath (stage : Text) (suffix : String) (paths : ProfilePaths) : Text :=
  "certificate-renewals/".toList ++ (stage ++ '/' :: paths.org_id ++ '-' :: suffix.toList)

def oldPath (stage : Text) : ProfilePaths → Text := stagePath stage "old-cert.pem"
def newPath (stage : Text) : ProfilePaths → Text := stagePath stage "new-cert.pem"
def csrPath (stage : Text) : ProfilePaths → Text := stagePath stage "request.csr"

/-- What the attempts read of an `X509Certificate`. -/
structure Certificate where
  validTo : Int
  publicKey : List UInt8

/-- What an attempt finds beside the files: the clock, `Date`, the X.509 and Fabric libraries with
the checks made of them, and the signing keys. -/
structure Surroundings where
  now : Int
  parseDate : Text → Option Int
  toISOString : Int → Text
  extractApplicationRoots : List UInt8 → Except String (List (Text × List (List UInt8)))
  /-- `validateLeafCertificate(bytes, caBytes, paths, { allowExpired })`. -/
  validateLeafCertificate :
    List UInt8 → List UInt8 → ProfilePaths → Bool → Except String Certificate
  parseCertificate : List UInt8 → Except String Certificate
  singlePrivateKey : Text → Except String Text
  /-- `certificate.checkPrivateKey` of the key at a path. -/
  checkPrivateKey : Text → Certificate → Except String Bool

def material {α : Type} (result : Except String α) : Except Code α := result.mapError .material

structure PublicProfile where
  paths : ProfilePaths
  ca_bytes : List UInt8
  ca_certificate : Certificate

def loadPublicProfile (s : Surroundings) (files : Text → Option (List UInt8))
    (channelRoots : List (Text × List (List UInt8))) (paths : ProfilePaths) :
    Except Code PublicProfile := do
  let certificateBytes ← readBounded files paths.cert MAX_CERT_BYTES
  let caBytes ← readBounded files paths.ca_cert MAX_CERT_BYTES
  let caMspBytes ← readBounded files paths.ca_msp_cert MAX_CERT_BYTES
  failIf (caBytes ≠ caMspBytes) .caDrift
  failIf (!((channelRoots.lookup paths.org_id).getD []).contains caBytes) .caDrift
  let _ ← material (s.validateLeafCertificate certificateBytes caBytes paths true)
  let caCertificate ← material (s.parseCertificate caBytes)
  return { paths, ca_bytes := caBytes, ca_certificate := caCertificate }

def loadPublicProfiles (s : Surroundings) (files : Text → Option (List UInt8)) :
    Except Code (List PublicProfile × Text) := do
  let channelBytes ← readBounded files "channel.block".toList MAX_BLOCK_BYTES
  let channelRoots ← material (s.extractApplicationRoots channelBytes)
  let profiles ← profilePaths.mapM (loadPublicProfile s files channelRoots)
  failIf (channelRoots.length < profiles.length) .invalidGenesis
  return (profiles, sha256 channelBytes)

/-! ## The plan -/

def hexDigest (text : Text) : Bool :=
  text.length == 64 && text.all fun c => c.isDigit || decide ('a' ≤ c ∧ c ≤ 'f')

/-- The checks of `parsePlan` behind the schema, on the plan it decoded. -/
def parsePlan (s : Surroundings) (plan : RenewalPlan) : Except Code RenewalPlan := do
  failIf (s.parseDate plan.created_at).isNone .invalidPlan
  failIf (plan.status = .prepared && plan.applied_at.isSome) .invalidPlan
  failIf (plan.status = .applied && (plan.applied_at.bind s.parseDate).isNone) .invalidPlan
  failIf (!hexDigest plan.channel_block_sha256) .invalidPlan
  failIf (plan.certificates.length ≠ DEVELOPMENT_ORGANIZATIONS.length) .invalidPlan
  failIf (plan.days < 1 || MAX_DAYS < plan.days) .invalidArgument
  failIf (plan.renew_before_days < 0 || MAX_DAYS - 1 < plan.renew_before_days) .invalidArgument
  failIf (plan.days ≤ plan.renew_before_days) .invalidPlan
  return plan

def expectedPaths (stage : Text) (paths : ProfilePaths) : List Text :=
  [paths.org_id, paths.domain, paths.cert, oldPath stage paths, csrPath stage paths,
    newPath stage paths]

def RenewalPlanCertificate.paths (record : RenewalPlanCertificate) : List Text :=
  [record.org_id, record.domain, record.target_path, record.old_cert_path, record.csr_path,
    record.new_cert_path]

def validatePlanEntry (s : Surroundings) (stage : Text) (paths : ProfilePaths) :
    Option RenewalPlanCertificate → Except Code RenewalPlanCertificate
  | none => .error .invalidPlan
  | some record => do
    failIf (record.paths ≠ expectedPaths stage paths) .invalidPlan
    failIf (!([record.old_sha256, record.new_sha256, record.ca_sha256].all hexDigest)) .invalidPlan
    failIf (!([record.old_valid_to, record.new_valid_to].all fun date => (s.parseDate date).isSome))
      .invalidPlan
    return record

/-- A JSON string. -/
def quoted (text : Text) : List Char := '"' :: (text.flatMap escape ++ ['"'])

/-- `JSON.stringify(plan, null, 2)` with the line end after it. -/
def planText (plan : RenewalPlan) : List Char :=
  let line (indent : String) (name : String) (value : List Char) : List Char :=
    indent.toList ++ '"' :: name.toList ++ "\": ".toList ++ value
  let lines (parts : List (List Char)) : List Char := ",\n".toList.intercalate parts
  let certificate (c : RenewalPlanCertificate) : List Char :=
    "    \x7b\n".toList ++ lines
      ([("org_id", c.org_id), ("domain", c.domain), ("target_path", c.target_path),
        ("old_cert_path", c.old_cert_path), ("csr_path", c.csr_path),
        ("new_cert_path", c.new_cert_path), ("old_sha256", c.old_sha256),
        ("new_sha256", c.new_sha256), ("ca_sha256", c.ca_sha256),
        ("old_valid_to", c.old_valid_to), ("new_valid_to", c.new_valid_to)].map
        fun (name, value) => line "      " name (quoted value)) ++ "\n    \x7d".toList
  let status : String := match plan.status with
    | .prepared => "prepared"
    | .applied => "applied"
  "\x7b\n".toList ++ lines
    ([line "  " "schema" (quoted "kcl.test-certificate-renewal".toList),
      line "  " "version" "1".toList,
      line "  " "status" (quoted status.toList),
      line "  " "created_at" (quoted plan.created_at),
      line "  " "days" (toString plan.days).toList,
      line "  " "renew_before_days" (toString plan.renew_before_days).toList,
      line "  " "channel_block_sha256" (quoted plan.channel_block_sha256),
      line "  " "certificates" ("[\n".toList ++ lines (plan.certificates.map certificate) ++
        "\n  ]".toList)] ++
      (plan.applied_at.map fun date => line "  " "applied_at" (quoted date)).toList) ++
    "\n\x7d\n".toList

/-- `Buffer.byteLength`. -/
def byteLength (text : List Char) : Nat := (text.map Char.utf8Size).sum

/-- `writePlan(path, plan, false)`. -/
def writePlan (plan : RenewalPlan) (w : World) : Except Halt Unit × World :=
  if MAX_PLAN_BYTES < byteLength (planText plan) then
    (.error (.maintenance .invalidPlan), w)
  else atomicWrite (Disk.record plan) w

/-! ## An attempt -/

inductive TargetState
  | old
  | new
  deriving DecidableEq

structure PreflightEntry where
  paths : ProfilePaths
  entry : RenewalPlanCertificate
  old_bytes : List UInt8
  new_bytes : List UInt8
  state : TargetState

def targetState (entry : RenewalPlanCertificate) (activeBytes : List UInt8) :
    Except Code TargetState :=
  if sha256 activeBytes = entry.old_sha256 then .ok .old
  else if sha256 activeBytes = entry.new_sha256 then .ok .new
  else .error .targetDrift

def validateKeyMatches (s : Surroundings) (key : Text) (certificate : Certificate) :
    Except Code Unit := do
  let matched ← material (s.checkPrivateKey key certificate)
  failIf (!matched) .keyMismatch

def preflightEntry (s : Surroundings) (stage : Text) (disk : Disk)
    (byOrg : List (Text × RenewalPlanCertificate)) (publicProfile : PublicProfile)
    (paths : ProfilePaths) : Except Code PreflightEntry := do
  let entry ← validatePlanEntry s stage paths (byOrg.lookup paths.org_id)
  failIf (sha256 publicProfile.ca_bytes ≠ entry.ca_sha256) .caDrift
  let oldBytes ← readBounded disk.files (oldPath stage paths) MAX_CERT_BYTES
  let newBytes ← readBounded disk.files (newPath stage paths) MAX_CERT_BYTES
  let _ ← readBounded disk.files (csrPath stage paths) MAX_CERT_BYTES
  failIf (sha256 oldBytes ≠ entry.old_sha256 || sha256 newBytes ≠ entry.new_sha256) .planDrift
  let oldCertificate ← material (s.validateLeafCertificate oldBytes publicProfile.ca_bytes paths true)
  let newCertificate ← material (s.validateLeafCertificate newBytes publicProfile.ca_bytes paths false)
  failIf (s.toISOString oldCertificate.validTo ≠ entry.old_valid_to ||
      s.toISOString newCertificate.validTo ≠ entry.new_valid_to ||
      newCertificate.validTo ≤ oldCertificate.validTo ||
      newCertificate.validTo - s.now ≤ disk.plan.renew_before_days * DAY_MS ||
      newCertificate.publicKey ≠ oldCertificate.publicKey) .invalidCertificate
  let userKey ← material (s.singlePrivateKey paths.keystore)
  let caKey ← material (s.singlePrivateKey paths.ca_keystore)
  validateKeyMatches s userKey oldCertificate
  validateKeyMatches s userKey newCertificate
  validateKeyMatches s caKey publicProfile.ca_certificate
  let activeBytes ← readBounded disk.files paths.cert MAX_CERT_BYTES
  let state ← targetState entry activeBytes
  return { paths, entry, old_bytes := oldBytes, new_bytes := newBytes, state }

/-- The profiles of `loadPublicProfiles` are those of `profilePaths`, in its order. -/
def preflightApply (s : Surroundings) (stage : Text) (disk : Disk) :
    Except Code (List PreflightEntry) := do
  let (profiles, channelHash) ← loadPublicProfiles s disk.files
  failIf (channelHash ≠ disk.plan.channel_block_sha256) .genesisDrift
  failIf (¬(disk.plan.certificates.map (·.org_id)).Nodup) .invalidPlan
  let byOrg := disk.plan.certificates.map fun entry => (entry.org_id, entry)
  profiles.mapM fun profile => preflightEntry s stage disk byOrg profile profile.paths

/-- The forward pass, with `changedThisAttempt` as it stands when the pass ends. -/
def install (changed : List PreflightEntry) :
    List PreflightEntry → World → List PreflightEntry × Except Halt Unit × World
  | [], w => (changed, .ok (), w)
  | item :: rest, w =>
    if item.state = .new then install changed rest w
    else
      let changed := changed ++ [item]
      match atomicWrite (Disk.put item.paths.cert item.new_bytes) w with
      | (.error halt, w) => (changed, .error halt, w)
      | (.ok _, w) =>
        match readBounded w.disk.files item.paths.cert MAX_CERT_BYTES with
        | .error code => (changed, .error (.maintenance code), w)
        | .ok installed =>
          if sha256 installed ≠ item.entry.new_sha256 then
            (changed, .error (.maintenance .applyFailed), w)
          else install changed rest w

/-- The compensation, with `rollbackFailed` as it stands when the pass ends. -/
def rollback (failed : Bool) : List PreflightEntry → World → Except Halt Bool × World
  | [], w => (.ok failed, w)
  | item :: rest, w =>
    match atomicWrite (Disk.put item.paths.cert item.old_bytes) w with
    | (.error .stopped, w) => (.error .stopped, w)
    | (.error _, w) => rollback true rest w
    | (.ok _, w) =>
      match readBounded w.disk.files item.paths.cert MAX_CERT_BYTES with
      | .error _ => rollback true rest w
      | .ok restored => rollback (failed || sha256 restored ≠ item.entry.old_sha256) rest w

inductive Outcome
  | applied (changed : Nat)
  | threw (code : Code)
  | stopped
  deriving DecidableEq

/-- The `catch` block: what the error of the attempt turns into. -/
def compensate (changed : List PreflightEntry) (halt : Halt) (w : World) : Outcome × Disk :=
  if halt = .stopped then (.stopped, w.disk)
  else
    match rollback false changed.reverse w with
    | (.error _, w) => (.stopped, w.disk)
    | (.ok true, w) => (.threw .rollbackFailed, w.disk)
    | (.ok false, w) =>
      match halt with
      | .maintenance code => (.threw code, w.disk)
      | _ => (.threw .applyFailed, w.disk)

/-- The plan that a finished attempt records. -/
def RenewalPlan.appliedAt (plan : RenewalPlan) (date : Text) : RenewalPlan :=
  { plan with status := .applied, applied_at := some date }

/-- An attempt: what the caller sees of it, and the files it leaves. -/
def applyRenewal (s : Surroundings) (stage : Text) (faults : List Fault) (disk : Disk) :
    Outcome × Disk :=
  match parsePlan s disk.plan with
  | .error code => (.threw code, disk)
  | .ok plan =>
    match preflightApply s stage disk with
    | .error code => (.threw code, disk)
    | .ok entries =>
      match install [] entries { disk, faults } with
      | (changed, .error halt, w) => compensate changed halt w
      | (changed, .ok _, w) =>
        match writePlan (plan.appliedAt (s.toISOString s.now)) w with
        | (.error halt, w) => compensate changed halt w
        | (.ok _, w) => (.applied changed.length, w.disk)

/-! ## Checks that passed -/

theorem failIf_ok {condition : Bool} {code : Code} {u : Unit} :
    failIf condition code = .ok u ↔ condition = false := by
  cases condition <;> simp [failIf]

theorem readBounded_ok {files : Text → Option (List UInt8)} {path : Text} {maxBytes : Nat}
    {bytes : List UInt8} : readBounded files path maxBytes = .ok bytes ↔
      files path = some bytes ∧ bytes.length ≤ maxBytes := by
  unfold readBounded
  cases files path with
  | none => simp
  | some found =>
      simp only [bind_ok, failIf_ok, decide_eq_false_iff_not, pure_ok, Option.some.injEq]
      constructor
      · rintro ⟨_, small, rfl⟩
        exact ⟨rfl, by omega⟩
      · rintro ⟨rfl, small⟩
        exact ⟨(), by omega, rfl⟩

theorem mapM_ok {ε α β : Type} {f : α → Except ε β} : ∀ {l : List α} {m : List β},
    l.mapM f = .ok m → List.Forall₂ (fun a b => f a = .ok b) l m
  | [], m, run => by
      cases run
      exact .nil
  | a :: l, m, run => by
      rw [List.mapM_cons] at run
      obtain ⟨b, first, run⟩ := bind_ok.mp run
      obtain ⟨rest, later, run⟩ := bind_ok.mp run
      cases run
      exact .cons first (mapM_ok later)

theorem bind_error {ε α β : Type} {x : Except ε α} {f : α → Except ε β} {e : ε} :
    (x >>= f) = .error e ↔ x = .error e ∨ ∃ a, x = .ok a ∧ f a = .error e := by
  cases x with
  | error other => simp [bind, Except.bind]
  | ok a => simp

theorem mapM_error {ε α β : Type} {f : α → Except ε β} {e : ε} : ∀ {l : List α},
    l.mapM f = .error e → ∃ a ∈ l, f a = .error e
  | [], run => by cases run
  | a :: l, run => by
      rw [List.mapM_cons, bind_error] at run
      rcases run with first | ⟨b, -, run⟩
      · exact ⟨a, List.mem_cons_self, first⟩
      · rcases bind_error.mp run with later | ⟨rest, -, run⟩
        · obtain ⟨c, mem, failed⟩ := mapM_error later
          exact ⟨c, List.mem_cons_of_mem _ mem, failed⟩
        · cases run

/-! ## Codes -/

theorem failIf_error {condition : Bool} {code e : Code} :
    failIf condition code = .error e ↔ condition = true ∧ code = e := by
  cases condition <;> simp [failIf]

theorem readBounded_drift (files : Text → Option (List UInt8)) (path : Text) (maxBytes : Nat) :
    readBounded files path maxBytes ≠ .error .targetDrift := by
  unfold readBounded
  cases files path with
  | none => simp
  | some found => simp [bind_error, failIf_error, pure, Except.pure]

theorem material_drift {α : Type} (result : Except String α) :
    material result ≠ .error .targetDrift := by
  cases result <;> simp [material, Except.mapError]

theorem validatePlanEntry_drift (s : Surroundings) (stage : Text) (paths : ProfilePaths)
    (entry : Option RenewalPlanCertificate) :
    validatePlanEntry s stage paths entry ≠ .error .targetDrift := by
  cases entry with
  | none => simp [validatePlanEntry]
  | some record => simp [validatePlanEntry, bind_error, failIf_error, pure, Except.pure]

theorem validateKeyMatches_drift (s : Surroundings) (key : Text) (certificate : Certificate) :
    validateKeyMatches s key certificate ≠ .error .targetDrift := by
  simp [validateKeyMatches, bind_error, failIf_error, material_drift]

theorem loadPublicProfile_drift (s : Surroundings) (files : Text → Option (List UInt8))
    (channelRoots : List (Text × List (List UInt8))) (paths : ProfilePaths) :
    loadPublicProfile s files channelRoots paths ≠ .error .targetDrift := by
  simp [loadPublicProfile, bind_error, failIf_error, material_drift, readBounded_drift, pure,
    Except.pure]

theorem loadPublicProfiles_drift (s : Surroundings) (files : Text → Option (List UInt8)) :
    loadPublicProfiles s files ≠ .error .targetDrift := by
  have each : ∀ roots,
      profilePaths.mapM (loadPublicProfile s files roots) ≠ .error .targetDrift := by
    intro roots failed
    obtain ⟨paths, -, refused⟩ := mapM_error failed
    exact loadPublicProfile_drift s files _ paths refused
  simp [loadPublicProfiles, bind_error, failIf_error, material_drift, readBounded_drift, pure,
    Except.pure, each]

/-! ## Targets -/

section

variable {stage : Text} {old new : ProfilePaths → List UInt8} {disk : Disk}

/-- The artifacts of the stage directory are the old and new certificates, and every target holds
one of the two. -/
structure Held (stage : Text) (old new : ProfilePaths → List UInt8) (disk : Disk) : Prop where
  old_file : ∀ paths ∈ profilePaths, disk.files (oldPath stage paths) = some (old paths)
  new_file : ∀ paths ∈ profilePaths, disk.files (newPath stage paths) = some (new paths)
  target : ∀ paths ∈ profilePaths,
    disk.files paths.cert = some (old paths) ∨ disk.files paths.cert = some (new paths)

/-- No two certificates of one target share their digest. -/
def Told (old new : ProfilePaths → List UInt8) : Prop :=
  ∀ paths ∈ profilePaths, sha256 (old paths) = sha256 (new paths) → old paths = new paths

/-- Every target holds its new certificate. -/
def Renewed (new : ProfilePaths → List UInt8) (disk : Disk) : Prop :=
  ∀ paths ∈ profilePaths, disk.files paths.cert = some (new paths)

/-- The two disks agree on every target. -/
def SameTargets (before after : Disk) : Prop :=
  ∀ paths ∈ profilePaths, after.files paths.cert = before.files paths.cert

theorem cert_nodup : (profilePaths.map (·.cert)).Nodup := by decide +kernel

theorem cert_crypto : ∀ paths ∈ profilePaths, paths.cert.take 2 = ['c', 'r'] := by
  decide +kernel

theorem stagePath_ne_cert (stage : Text) (suffix : String) (paths : ProfilePaths)
    {other : ProfilePaths} (mem : other ∈ profilePaths) :
    stagePath stage suffix paths ≠ other.cert := by
  intro same
  have start := cert_crypto other mem
  rw [← same] at start
  cases start

/-- What preflight found of one target. -/
structure Inspected (stage : Text) (old new : ProfilePaths → List UInt8) (disk : Disk)
    (item : PreflightEntry) : Prop where
  mem : item.paths ∈ profilePaths
  old_bytes : item.old_bytes = old item.paths
  new_bytes : item.new_bytes = new item.paths
  old_sha256 : sha256 item.old_bytes = item.entry.old_sha256
  new_sha256 : sha256 item.new_bytes = item.entry.new_sha256
  old_small : item.old_bytes.length ≤ MAX_CERT_BYTES
  new_small : item.new_bytes.length ≤ MAX_CERT_BYTES
  is_old : item.state = .old → disk.files item.paths.cert = some item.old_bytes
  is_new : item.state = .new → disk.files item.paths.cert = some item.new_bytes

theorem preflightEntry_inspected {s : Surroundings}
    {byOrg : List (Text × RenewalPlanCertificate)} {profile : PublicProfile}
    {paths : ProfilePaths} {item : PreflightEntry} (held : Held stage old new disk)
    (told : Told old new) (mem : paths ∈ profilePaths)
    (run : preflightEntry s stage disk byOrg profile paths = .ok item) :
    item.paths = paths ∧ Inspected stage old new disk item := by
  unfold preflightEntry at run
  simp only [bind_ok, failIf_ok, readBounded_ok, pure_ok] at run
  obtain ⟨entry, -, -, -, oldBytes, ⟨oldFile, oldSmall⟩, newBytes, ⟨newFile, newSmall⟩, -, -, -,
    digests, -, -, -, -, -, -, -, -, -, -, -, -, -, -, -, -, active, ⟨activeFile, -⟩, state, stated,
    rfl⟩ := run
  obtain rfl : old paths = oldBytes := Option.some.inj ((held.old_file paths mem).symm.trans oldFile)
  obtain rfl : new paths = newBytes := Option.some.inj ((held.new_file paths mem).symm.trans newFile)
  have digest : sha256 (old paths) = entry.old_sha256 ∧ sha256 (new paths) = entry.new_sha256 := by
    simpa using digests
  refine ⟨rfl, mem, rfl, rfl, digest.1, digest.2, oldSmall, newSmall, ?_, ?_⟩
  · rintro rfl
    rcases held.target paths mem with isOld | isNew
    · exact isOld
    · obtain rfl : new paths = active := Option.some.inj (isNew.symm.trans activeFile)
      have equal : sha256 (new paths) = entry.old_sha256 := by
        by_contra different
        rw [targetState, if_neg different, if_pos digest.2] at stated
        cases stated
      rw [told paths mem (digest.1.trans equal.symm)]
      exact isNew
  · rintro rfl
    rcases held.target paths mem with isOld | isNew
    · obtain rfl : old paths = active := Option.some.inj (isOld.symm.trans activeFile)
      rw [targetState, if_pos digest.1] at stated
      cases stated
    · exact isNew

theorem loadPublicProfiles_paths {s : Surroundings} {files : Text → Option (List UInt8)}
    {profiles : List PublicProfile} {hash : Text}
    (run : loadPublicProfiles s files = .ok (profiles, hash)) :
    profiles.map (·.paths) = profilePaths := by
  unfold loadPublicProfiles at run
  simp only [bind_ok, failIf_ok, pure_ok, Prod.mk.injEq] at run
  obtain ⟨-, -, roots, -, loaded, each, -, -, rfl, -⟩ := run
  have pair := mapM_ok each
  clear each
  generalize profilePaths = all at pair
  induction pair with
  | nil => rfl
  | cons first _ ih =>
      unfold loadPublicProfile at first
      simp only [bind_ok, failIf_ok, pure_ok] at first
      obtain ⟨-, -, -, -, -, -, -, -, -, -, -, -, -, -, rfl⟩ := first
      rw [List.map_cons, ih]

theorem preflightApply_inspected {s : Surroundings} {entries : List PreflightEntry}
    (held : Held stage old new disk) (told : Told old new)
    (run : preflightApply s stage disk = .ok entries) :
    entries.map (·.paths) = profilePaths ∧ ∀ item ∈ entries, Inspected stage old new disk item := by
  unfold preflightApply at run
  simp only [bind_ok, failIf_ok] at run
  obtain ⟨⟨profiles, hash⟩, loaded, -, -, -, -, each⟩ := run
  have paths := loadPublicProfiles_paths loaded
  have known : ∀ profile ∈ profiles, profile.paths ∈ profilePaths := by
    intro profile mem
    rw [← paths]
    exact List.mem_map_of_mem mem
  have pair := mapM_ok each
  rw [← paths]
  clear paths each loaded
  dsimp only at pair known ⊢
  generalize (disk.plan.certificates.map fun entry => (entry.org_id, entry)) = byOrg at pair
  induction pair with
  | nil => exact ⟨rfl, List.forall_mem_nil _⟩
  | cons first _ ih =>
      obtain ⟨same, inspected⟩ := preflightEntry_inspected held told (known _ List.mem_cons_self) first
      obtain ⟨rest, all⟩ := ih fun profile mem => known profile (List.mem_cons_of_mem _ mem)
      refine ⟨?_, List.forall_mem_cons.mpr ⟨inspected, all⟩⟩
      rw [List.map_cons, List.map_cons, rest, same]

theorem preflightEntry_drift {s : Surroundings} {byOrg : List (Text × RenewalPlanCertificate)}
    {profile : PublicProfile} {paths : ProfilePaths} (held : Held stage old new disk)
    (mem : paths ∈ profilePaths) :
    preflightEntry s stage disk byOrg profile paths ≠ .error .targetDrift := by
  intro drift
  simp only [preflightEntry, bind_error, failIf_error, readBounded_drift, material_drift,
    validatePlanEntry_drift, validateKeyMatches_drift, reduceCtorEq, and_false, false_or,
    failIf_ok, readBounded_ok, pure, Except.pure, exists_const, exists_false, or_false] at drift
  obtain ⟨entry, -, -, oldBytes, ⟨oldFile, -⟩, newBytes, ⟨newFile, -⟩, -, -, digests, -, -, -, -,
    -, -, -, -, -, -, -, -, -, -, -, active, ⟨activeFile, -⟩, unknown⟩ := drift
  obtain rfl : old paths = oldBytes := Option.some.inj ((held.old_file paths mem).symm.trans oldFile)
  obtain rfl : new paths = newBytes := Option.some.inj ((held.new_file paths mem).symm.trans newFile)
  have digest : sha256 (old paths) = entry.old_sha256 ∧ sha256 (new paths) = entry.new_sha256 := by
    simpa using digests
  have known : targetState entry active ≠ .error .targetDrift := by
    rcases held.target paths mem with isOld | isNew
    · obtain rfl : old paths = active := Option.some.inj (isOld.symm.trans activeFile)
      rw [targetState, if_pos digest.1]
      simp
    · obtain rfl : new paths = active := Option.some.inj (isNew.symm.trans activeFile)
      unfold targetState
      split
      · simp
      · rw [if_pos digest.2]
        simp
  exact known unknown

/-- Preflight recognises every target that is held. -/
theorem preflightApply_drift {s : Surroundings} (held : Held stage old new disk) :
    preflightApply s stage disk ≠ .error .targetDrift := by
  intro drift
  simp only [preflightApply, bind_error, failIf_error, loadPublicProfiles_drift, reduceCtorEq,
    and_false, false_or] at drift
  obtain ⟨⟨profiles, hash⟩, loaded, -, -, -, -, each⟩ := drift
  obtain ⟨profile, mem, refused⟩ := mapM_error each
  have known : profile.paths ∈ profilePaths := by
    rw [← loadPublicProfiles_paths loaded]
    exact List.mem_map_of_mem mem
  exact preflightEntry_drift held known refused

end

end Knowledger.Fabric.Renewal
