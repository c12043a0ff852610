import ConfigBackup.Models
import ConfigBackup.Text

/-!
Edits of a storage. A submitted form passes `BackupDestination.clean` against
the stored row before it is saved; the endpoint of a storage, which says where
its copies are, may not change while a copy is recorded there.
-/

namespace ConfigBackup.DestinationEdits

open Models Tables Text

/-- The fields that identify where a storage keeps its copies. -/
structure Endpoint where
  protocol : DestinationProtocol
  host : String
  port : Option ℕ
  basePath : String
  mountPath : String
  credentialProfile : Option ℕ
deriving DecidableEq, Repr

def endpointOf (destination : BackupDestination) : Endpoint where
  protocol := destination.protocol
  host := destination.host
  port := destination.port
  basePath := destination.basePath
  mountPath := destination.mountPath
  credentialProfile := destination.credentialProfile

/-- The instance that `clean` sees, with every nullable field. -/
structure DestinationForm where
  isDefault : Bool
  enabled : Bool
  autoReplicate : Bool
  integrityAuditEnabled : Bool
  allowInsecureFtp : Bool
  endpoint : Endpoint
  credentialIsPassword : Bool
  connectTimeout : Option ℕ
  maxRetries : Option ℕ
  retryDelayMinutes : Option ℕ
  maxArtifactSize : Option ℕ
  localRetentionPolicy : Option ℕ
  remoteRetentionPolicy : Option ℕ
  enforceRetentionPolicy : Bool
  hostKeyType : String
  hostKeyPublic : String
  hostKeyFingerprintSha256 : String
deriving DecidableEq, Repr

/-- Messages by field, or one message about the whole form. -/
inductive ValidationError
  | fields (errors : List (String × String))
  | form (message : String)
deriving DecidableEq, Repr

/-- Raise the messages whose condition holds, if there are any. -/
def raiseFields (checks : List (Bool × String × String)) : Except ValidationError Unit :=
  match (checks.filter (fun check => check.1)).map (fun check => check.2) with
  | [] => .ok ()
  | errors => .error (.fields errors)

/-- The protocol of the local storage never changes. -/
def cleanIdentity (original : Option BackupDestination) (form : DestinationForm) :
    Except ValidationError Unit :=
  match original with
  | none => .ok ()
  | some original =>
    if original.protocol == .localStorage &&
        (form.endpoint.protocol != .localStorage || !form.isDefault) then
      .error (.fields [("protocol", "The default Local storage type cannot be changed.")])
    else if original.protocol != .localStorage && form.endpoint.protocol == .localStorage then
      .error (.fields [("protocol", "The system default Local storage already exists.")])
    else .ok ()

def cleanLocal (form : DestinationForm) : Except ValidationError Unit :=
  let inapplicable := "This remote transport setting does not apply to the Local storage."
  raiseFields [
    (!form.isDefault, "is_default", "The Local storage must be the system default."),
    (!form.enabled, "enabled", "The default Local storage cannot be disabled."),
    (form.autoReplicate, "auto_replicate",
      "The primary Local storage is written directly, not replicated."),
    (form.integrityAuditEnabled, "integrity_audit_enabled",
      "Remote integrity audits do not apply to the Local storage."),
    (form.endpoint.credentialProfile.isSome, "credential_profile",
      "The Local storage does not use remote credentials."),
    (form.endpoint.host != "", "host", "The Local storage does not use a remote host."),
    (form.endpoint.port.isSome, "port", "The Local storage does not use a remote port."),
    (form.endpoint.basePath != "", "base_path",
      "The Local storage path is managed by the deployment."),
    (form.endpoint.mountPath != "", "mount_path",
      "The Local storage does not use a network mount path."),
    (form.connectTimeout.isSome, "connect_timeout", inapplicable),
    (form.maxRetries.isSome, "max_retries", inapplicable),
    (form.retryDelayMinutes.isSome, "retry_delay_minutes", inapplicable),
    (form.maxArtifactSize.isSome, "max_artifact_size", inapplicable),
    (form.remoteRetentionPolicy.isSome, "remote_retention_policy",
      "Select a local retention profile for the Local storage."),
    (form.enforceRetentionPolicy && form.localRetentionPolicy.isNone, "local_retention_policy",
      "Select a local retention profile before enforcing it.")]

def cleanRemoteFields (form : DestinationForm) : Except ValidationError Unit :=
  let required := "This remote-storage field is required."
  let mounted := form.endpoint.protocol.mounted
  raiseFields [
    (form.isDefault, "is_default", "Only the Local storage can be the system default."),
    (form.localRetentionPolicy.isSome, "local_retention_policy",
      "Select a remote retention profile for a remote storage."),
    (form.enforceRetentionPolicy && form.remoteRetentionPolicy.isNone,
      "remote_retention_policy", "Select a remote retention profile before enforcing it."),
    (form.maxRetries.isNone, "max_retries", required),
    (form.retryDelayMinutes.isNone, "retry_delay_minutes", required),
    (form.maxArtifactSize.isNone, "max_artifact_size", required),
    (!mounted && form.endpoint.port.isNone, "port", required),
    (!mounted && form.endpoint.credentialProfile.isNone, "credential_profile", required),
    (!mounted && form.connectTimeout.isNone, "connect_timeout", required),
    (mounted && form.endpoint.mountPath == "", "mount_path",
      "Select the directory containing the mounted share."),
    (mounted && form.endpoint.host != "", "host",
      "Mounted network storage does not use a server field."),
    (mounted && form.endpoint.port.isSome, "port",
      "Mounted network storage does not use a port field."),
    (mounted && form.endpoint.credentialProfile.isSome, "credential_profile",
      "Mount credentials are managed by Docker or the operating system."),
    (mounted && form.connectTimeout.isSome, "connect_timeout",
      "Mounted network storage does not use a connection timeout."),
    (!mounted && form.endpoint.mountPath != "", "mount_path",
      "Only NFS and SMB3 storage profiles use a mount path.")]

/-- `self.replicas.filter(remote_deleted_at__isnull=True).exclude(remote_path="")`. -/
def hasRecordedCopies (db : Database) (destinationId : ℕ) : Bool :=
  db.replicas.rows.any (fun r => r.destination == destinationId && r.remoteDeletedAt.isNone &&
    r.remotePath != "")

/-- The endpoint is frozen while a copy is recorded on the storage. -/
def cleanEndpoint (db : Database) (original : Option BackupDestination) (form : DestinationForm) :
    Except ValidationError Unit :=
  match original with
  | none => .ok ()
  | some original =>
    if hasRecordedCopies db original.pk then
      let old := endpointOf original
      let new := form.endpoint
      let frozen := "This endpoint field cannot be changed while remote copies exist. " ++
        "Create a new storage for a different endpoint or path."
      raiseFields [
        (new.protocol != old.protocol, "protocol", frozen),
        (new.host != old.host, "host", frozen),
        (new.port != old.port, "port", frozen),
        (new.basePath != old.basePath, "base_path", frozen),
        (new.mountPath != old.mountPath, "mount_path", frozen),
        (new.credentialProfile != old.credentialProfile, "credential_profile", frozen)]
    else .ok ()

def validHost (host : String) : Bool :=
  host != "" && host.toList.all (fun c =>
    !isSpace c && !(['/', '\\', '[', ']', '\x00'].contains c))

def validMountPath (mountPath : String) : Bool :=
  let path := strip isSpace mountPath.toList
  path.head? == some '/' && path != ['/'] && !path.contains '\\' && !path.contains '\x00' &&
    ((path.splitOn '/').drop 1).all (fun part => part != [] && part != ['.'] && part != ['.', '.'])

def validBasePath (basePath : String) : Bool :=
  let path := strip isSpace basePath.toList
  path != [] && path != ['.'] && !path.contains '\\' && !path.contains '\x00' &&
    path.all (fun c => decide (32 ≤ c.val)) &&
    ((path.map (fun c => if c = '\\' then '/' else c)).splitOn '/').all
      (fun part => part != ['.', '.'])

def cleanTransport (form : DestinationForm) : Except ValidationError Unit :=
  let protocol := form.endpoint.protocol
  let keyValues := [form.hostKeyType, form.hostKeyPublic, form.hostKeyFingerprintSha256]
  if protocol == .ftp && !form.allowInsecureFtp then
    .error (.fields [("allow_insecure_ftp",
      "Confirm that this destination may use unencrypted FTP.")])
  else if protocol == .ftp && form.endpoint.credentialProfile.isSome &&
      !form.credentialIsPassword then
    .error (.fields [("credential_profile", "FTP destinations require password credentials.")])
  else if form.integrityAuditEnabled && !protocol.replicated then
    .error (.fields [("integrity_audit_enabled",
      "Automatic integrity audits require remote storage.")])
  else if !protocol.mounted && !validHost form.endpoint.host then
    .error (.fields [("host", "Enter a valid server host name or address.")])
  else if protocol.mounted && !validMountPath form.endpoint.mountPath then
    .error (.fields [("mount_path", "Use an absolute Linux path below an allowed mount root.")])
  else if !validBasePath form.endpoint.basePath then
    .error (.fields [("base_path", "Use a safe POSIX path without backslashes or '..' segments.")])
  else if keyValues.any (fun value => value != "") && !keyValues.all (fun value => value != "") then
    .error (.form "The approved SFTP host key is incomplete.")
  else .ok ()

/-- `BackupDestination.clean` for the stored row under the given key. -/
def clean (db : Database) (destinationId : ℕ) (form : DestinationForm) :
    Except ValidationError Unit := do
  let original := db.destinations.get? destinationId
  cleanIdentity original form
  if form.endpoint.protocol = .localStorage then cleanLocal form
  else
    cleanRemoteFields form
    cleanEndpoint db original form
    cleanTransport form

/-- The row after an admitted edit; the service fields are not on the form. -/
def edited (form : DestinationForm) (row : BackupDestination) : BackupDestination where
  pk := row.pk
  enabled := form.enabled
  autoReplicate := form.autoReplicate
  isDefault := form.isDefault
  protocol := form.endpoint.protocol
  host := form.endpoint.host
  port := form.endpoint.port
  basePath := form.endpoint.basePath
  mountPath := form.endpoint.mountPath
  credentialProfile := form.endpoint.credentialProfile
  maxRetries := form.maxRetries.getD 0
  retryDelayMinutes := form.retryDelayMinutes.getD 0
  maxArtifactSize := form.maxArtifactSize.getD 0
  localRetentionPolicy := form.localRetentionPolicy
  remoteRetentionPolicy := form.remoteRetentionPolicy
  enforceRetentionPolicy := form.enforceRetentionPolicy
  hostKeyTrusted := row.hostKeyTrusted
  lastErrorCode := row.lastErrorCode
  lastErrorMessage := row.lastErrorMessage
  lastSuccessAt := row.lastSuccessAt

@[simp] theorem edited_pk (form : DestinationForm) (row : BackupDestination) :
    (edited form row).pk = row.pk := rfl

/-- Save an admitted form; `none` when `clean` refuses it or the row is gone. -/
def editDestination (db : Database) (destinationId : ℕ) (form : DestinationForm) :
    Option Database :=
  match db.destinations.get? destinationId, clean db destinationId form with
  | some _, .ok _ =>
    some { db with
      destinations := db.destinations.update destinationId (edited form) (edited_pk form) }
  | _, _ => none

theorem raiseFields_ok {checks : List (Bool × String × String)}
    (h : raiseFields checks = .ok ()) : ∀ check ∈ checks, check.1 = false := by
  unfold raiseFields at h
  split at h
  · rename_i hnone
    intro check hcheck
    have hempty := List.map_eq_nil_iff.mp hnone
    simpa using List.filter_eq_nil_iff.mp hempty check hcheck
  · cases h

theorem endpointOf_edited (form : DestinationForm) (row : BackupDestination) :
    endpointOf (edited form row) = form.endpoint := rfl

theorem cleanEndpoint_ok {db : Database} {original : BackupDestination} {form : DestinationForm}
    (hcopies : hasRecordedCopies db original.pk = true)
    (h : cleanEndpoint db (some original) form = .ok ()) :
    form.endpoint = endpointOf original := by
  simp only [cleanEndpoint, hcopies, if_true] at h
  have hchecks := raiseFields_ok h
  simp only [List.forall_mem_cons, bne_eq_false_iff_eq, List.not_mem_nil, false_implies,
    implies_true, and_true] at hchecks
  obtain ⟨hprotocol, hhost, hport, hbase, hmount, hcredential⟩ := hchecks
  calc form.endpoint = ⟨form.endpoint.protocol, form.endpoint.host, form.endpoint.port,
        form.endpoint.basePath, form.endpoint.mountPath, form.endpoint.credentialProfile⟩ := rfl
    _ = endpointOf original := by rw [hprotocol, hhost, hport, hbase, hmount, hcredential]

/-- An admitted edit keeps the endpoint of a remote storage with recorded copies. -/
theorem clean_keeps_endpoint {db : Database} {destinationId : ℕ} {original : BackupDestination}
    {form : DestinationForm} (horiginal : db.destinations.get? destinationId = some original)
    (hremote : original.protocol ≠ .localStorage)
    (hcopies : hasRecordedCopies db destinationId = true)
    (h : clean db destinationId form = .ok ()) : form.endpoint = endpointOf original := by
  have hkey : original.pk = destinationId := ((Table.get?_eq_some_iff _ _ _).mp horiginal).2
  subst hkey
  unfold clean at h
  rw [horiginal] at h
  cases hidentity : cleanIdentity (some original) form with
  | error e => simp [hidentity, bind, Except.bind] at h
  | ok _ =>
    simp only [hidentity, bind, Except.bind] at h
    split at h
    · rename_i hlocal
      -- `cleanIdentity` has refused a remote storage that becomes local
      simp [cleanIdentity, hremote, hlocal] at hidentity
    · cases hfields : cleanRemoteFields form with
      | error e => simp [hfields] at h
      | ok _ =>
        simp only [hfields] at h
        cases hendpoint : cleanEndpoint db (some original) form with
        | error e => simp [hendpoint] at h
        | ok _ => exact cleanEndpoint_ok hcopies hendpoint

end ConfigBackup.DestinationEdits
