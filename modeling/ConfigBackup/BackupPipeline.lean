import ConfigBackup.Repository
import ConfigBackup.RunLifecycle

/-!
One execution of the backup pipeline, from the execution context to its final
transaction. The driver, the credential providers, the file storage and the
clock answer as they like; a raised exception is either an expected one with
its code and message or any other one, and the handler records a failure.
-/

namespace ConfigBackup.BackupPipeline

open Calendar Models Repository RunLifecycle Tables

inductive Raised
  | expected (errorCode safeMessage : String)
  | unexpected
deriving DecidableEq, Repr

structure CollectedArtifact where
  artifactType : String
  filename : String
  content : List UInt8
  format : String
  isPrimary : Bool
deriving DecidableEq, Repr

/-- What `driver.normalize` does: bytes, another value, a `UnicodeError` or
`ValueError`, or another exception. -/
inductive Normalized
  | data (bytes : List UInt8)
  | notBytes
  | valueError
  | raised (e : Raised)
deriving DecidableEq, Repr

/-- A driver; a failed validation carries its error code and message. -/
structure Driver where
  collect : Except Raised (List CollectedArtifact)
  validate : CollectedArtifact → Except Raised (Option (String × String))
  normalize : CollectedArtifact → Normalized
  normalizerVersion : String

/-- The part of the context that comes from the mapping and credential tables. -/
structure ContextProfile where
  driverId : String
  secretProviderId : Option String
  secretReference : Option String
  receiver : Option (Option String × Option String)
deriving DecidableEq, Repr

structure ExecutionContext where
  targetId : ℕ
  deviceId : ℕ
  storeMode : StoreMode
  profile : ContextProfile
deriving DecidableEq, Repr

structure PipelineEnvironment where
  profile : BackupTarget → Except Raised ContextProfile
  createDriver : String → Except Raised Driver
  resolve : String → String → Except Raised Unit
  put : String → List UInt8 → Except Raised ℕ
  revisionUuid : String
  startedAt : Instant
  created : Instant
  finishedAt : Instant
  snapshotQuery : LatestQuery
  commitQuery : LatestQuery
  errorMessageMaxLength : ℕ

structure BackupResult where
  runId : ℕ
  status : RunStatus
  changed : Bool
  rawChanged : Bool
  revisionId : Option ℕ
  errorCode : String
deriving DecidableEq, Repr

structure PreparedArtifact where
  artifact : CollectedArtifact
  rawHash : String
  normalizedHash : String
  isPrimary : Bool
deriving DecidableEq, Repr

/-- `policy.store_mode if policy else "changed_only"`. -/
def storeMode (db : Database) (target : BackupTarget) : StoreMode :=
  ((target.policyOverride.bind db.backupPolicies.get?).map (fun p => p.storeMode)).getD .changedOnly

def getExecutionContext (env : PipelineEnvironment) (db : Database) (runId : ℕ) :
    Except Raised ExecutionContext :=
  match db.runs.get? runId with
  | none => .error .unexpected
  | some run =>
    match db.targets.get? run.target with
    | none => .error .unexpected
    | some target => do
      let profile ← env.profile target
      pure ⟨target.pk, target.deviceId, storeMode db target, profile⟩

/-- Whether a text is set and not empty. -/
def truthyText (text : Option String) : Bool := text.any (fun s => s != "")

/-- Resolve a provider and a reference, which must both be configured. -/
def resolvePair (env : PipelineEnvironment) (provider reference : Option String)
    (missing : Raised) : Except Raised Unit :=
  if !truthyText provider || !truthyText reference then .error missing
  else env.resolve (provider.getD "") (reference.getD "")

def resolveCredentials (env : PipelineEnvironment) (profile : ContextProfile) :
    Except Raised Unit :=
  if truthyText profile.secretProviderId || truthyText profile.secretReference then
    resolvePair env profile.secretProviderId profile.secretReference
      (.expected "NO_CREDENTIAL_PROFILE"
        "Credential provider and reference must both be configured.")
  else .ok ()

def resolveReceiver (env : PipelineEnvironment) (profile : ContextProfile) : Except Raised Unit :=
  match profile.receiver with
  | none => .ok ()
  | some (provider, reference) =>
    resolvePair env provider reference
      (.expected "NO_RECEIVER_CREDENTIALS"
        "The device upload receiver has no complete credential profile.")

section Prepare

variable (sha256Hex : List UInt8 → String)

def prepareArtifact (driver : Driver) (artifact : CollectedArtifact) :
    Except Raised PreparedArtifact := do
  match ← driver.validate artifact with
  | some (errorCode, safeMessage) => .error (.expected errorCode safeMessage)
  | none =>
    match driver.normalize artifact with
    | .raised e => .error e
    | .valueError =>
      .error (.expected "NORMALIZATION_FAILED" "Artifact normalization failed.")
    | .notBytes =>
      .error (.expected "NORMALIZATION_FAILED" "Artifact normalization returned no data.")
    | .data bytes =>
      if bytes.isEmpty then
        .error (.expected "NORMALIZATION_FAILED" "Artifact normalization returned no data.")
      else .ok ⟨artifact, sha256Hex artifact.content, sha256Hex bytes, artifact.isPrimary⟩

def prepareEach (driver : Driver) : List CollectedArtifact → Except Raised (List PreparedArtifact)
  | [] => .ok []
  | artifact :: rest => do
    let item ← prepareArtifact sha256Hex driver artifact
    let others ← prepareEach driver rest
    pure (item :: others)

def prepareArtifacts (driver : Driver) (artifacts : List CollectedArtifact) :
    Except Raised (List PreparedArtifact) :=
  if artifacts.isEmpty then .error (.expected "EMPTY_CONFIG" "Driver returned no artifacts.")
  else if ¬ (artifacts.map (fun a => a.artifactType)).Nodup then
    .error (.expected "VALIDATION_FAILED" "Driver returned duplicate artifact types.")
  else if (artifacts.filter (fun a => a.isPrimary)).length ≠ 1 then
    .error (.expected "VALIDATION_FAILED" "Exactly one primary artifact is required.")
  else prepareEach sha256Hex driver artifacts

/-- What the driver delivers: its version, all artifacts, and the primary one. -/
structure Collected where
  normalizerVersion : String
  prepared : List PreparedArtifact
  primary : PreparedArtifact

def collectPrepared (env : PipelineEnvironment) (profile : ContextProfile) :
    Except Raised Collected := do
  let driver ← env.createDriver profile.driverId
  resolveCredentials env profile
  resolveReceiver env profile
  let artifacts ← driver.collect
  let prepared ← prepareArtifacts sha256Hex driver artifacts
  match prepared.find? (fun item => item.isPrimary) with
  | none => .error .unexpected
  | some primary => pure ⟨driver.normalizerVersion, prepared, primary⟩

end Prepare

def artifactKey (env : PipelineEnvironment) (deviceId : ℕ) (item : PreparedArtifact) : String :=
  "devices/" ++ toString deviceId ++ "/revisions/" ++ env.revisionUuid ++ "/" ++
    item.artifact.filename

/-- Put the files one after another; the first storage error ends the loop. -/
def storeArtifacts (env : PipelineEnvironment) (deviceId : ℕ) :
    List PreparedArtifact → Except Raised (List StoredArtifactRecord)
  | [] => .ok []
  | item :: rest => do
    let size ← env.put (artifactKey env deviceId item) item.artifact.content
    let others ← storeArtifacts env deviceId rest
    pure ({
      artifactType := item.artifact.artifactType
      format := item.artifact.format
      storageKey := artifactKey env deviceId item
      size := size
      rawHash := item.rawHash
      normalizedHash := item.normalizedHash
      isPrimary := item.isPrimary } :: others)

def revisionCommit (env : PipelineEnvironment) (context : ExecutionContext) (collected : Collected)
    (contentChanged rawChanged : Bool) (records : List StoredArtifactRecord) : RevisionCommit where
  revisionUuid := env.revisionUuid
  normalizedHash := collected.primary.normalizedHash
  normalizerVersion := collected.normalizerVersion
  driverId := context.profile.driverId
  contentChanged := contentChanged
  rawChanged := rawChanged
  artifacts := records
  created := env.created
  finishedAt := env.finishedAt

/-- A transaction that raised. -/
def orRaise {α : Type} : Option α → Except Raised α
  | none => .error .unexpected
  | some a => .ok a

/-- Store a new revision with all its files. -/
def storeRevision (scheduler : Scheduler) (env : PipelineEnvironment) (runId : ℕ)
    (context : ExecutionContext) (collected : Collected) (contentChanged rawChanged : Bool)
    (db : Database) : Except Raised (BackupResult × Database) := do
  let records ← storeArtifacts env context.deviceId collected.prepared
  let db' ← orRaise (commitRevision scheduler db runId
    (env.commitQuery.first (db.targetRevisions context.targetId))
    (revisionCommit env context collected contentChanged rawChanged records))
  pure (⟨runId, if contentChanged then .successChanged else .successUnchanged, contentChanged,
    rawChanged, some db.revisions.next, ""⟩, db')

/-- The body of the pipeline once the run is RUNNING. -/
def attempt (scheduler : Scheduler) (sha256Hex : List UInt8 → String) (env : PipelineEnvironment)
    (runId : ℕ) (context : ExecutionContext) (db : Database) :
    Except Raised (BackupResult × Database) := do
  let collected ← collectPrepared sha256Hex env context.profile
  let latest ← orRaise
    (getLatestRevision db (env.snapshotQuery.first (db.targetRevisions context.targetId)))
  let contentChanged := latest.all (fun s => s.normalizedHash != collected.primary.normalizedHash)
  let rawChanged := latest.all (fun s => s.primaryRawHash != collected.primary.rawHash)
  if !contentChanged && context.storeMode == .changedOnly then
    let current := env.commitQuery.first (db.targetRevisions context.targetId)
    let db' ← orRaise (commitUnchanged scheduler db runId current rawChanged env.finishedAt)
    pure (⟨runId, .successUnchanged, false, rawChanged, current.map (fun r => r.pk), ""⟩, db')
  else storeRevision scheduler env runId context collected contentChanged rawChanged db

/-- How an execution ends: with a result, or with the exception it raises again. -/
structure PipelineOutcome where
  result : Option BackupResult
  db : Database

def truncated (n : ℕ) (message : String) : String := String.ofList (message.toList.take n)

/-- The exception handlers. -/
def recordFailure (scheduler : Scheduler) (env : PipelineEnvironment) (runId : ℕ) (db : Database) :
    Raised → PipelineOutcome
  | .expected errorCode safeMessage =>
    match markFailed scheduler db runId
        ⟨.failed, errorCode, truncated env.errorMessageMaxLength safeMessage⟩ env.finishedAt with
    | none => ⟨none, db⟩
    | some db' => ⟨some ⟨runId, .failed, false, false, none, errorCode⟩, db'⟩
  | .unexpected =>
    match markFailed scheduler db runId internalError env.finishedAt with
    | none => ⟨none, db⟩
    | some db' => ⟨none, db'⟩

/-- `BackupPipeline.execute`. -/
def execute (scheduler : Scheduler) (sha256Hex : List UInt8 → String) (env : PipelineEnvironment)
    (runId : ℕ) (db : Database) : PipelineOutcome :=
  match getExecutionContext env db runId with
  | .error e => recordFailure scheduler env runId db e
  | .ok context =>
    match markRunning db runId env.startedAt with
    | none => recordFailure scheduler env runId db .unexpected
    | some running =>
      match attempt scheduler sha256Hex env runId context running with
      | .error e => recordFailure scheduler env runId running e
      | .ok (result, db') => ⟨some result, db'⟩

end ConfigBackup.BackupPipeline
