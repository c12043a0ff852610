import ConfigBackup.RemoteFileNames

/-!
The files of a copy: its artifacts and the manifest that names them. A copy is recognised
by its path, so the manifest is compared field by field with the immutable data of the
revision; the recorded device name may have changed since.
-/

namespace ConfigBackup.RevisionFiles

open Calendar DestinationPaths Models PosixPaths RecordedPaths RemoteFileNames Replication Text

/-- A JSON value; the parser refuses objects that name a field twice. -/
inductive JsonValue
  | null
  | boolean (value : Bool)
  | number (value : ℚ)
  | text (value : String)
  | array (items : List JsonValue)
  | object (fields : List (String × JsonValue))

/-- The functions of other packages: Unicode normalisation, SHA-256, and JSON in UTF-8, of
which a text that is not well formed has no value. -/
structure Library where
  nfkd : String → String
  sha256Hex : List UInt8 → String
  loads : List UInt8 → Option JsonValue
  dumps : JsonValue → List UInt8

section Values

/-- `payload.get(name)`, where an absent field is `None`. -/
def field (fields : List (String × JsonValue)) (name : String) : JsonValue :=
  (fields.lookup name).getD .null

/-- `set(payload) == {...}`. -/
def hasFields (fields : List (String × JsonValue)) (names : List String) : Bool :=
  fields.all (fun f => names.contains f.1) &&
    names.all (fun name => fields.any (fun f => f.1 == name))

def equalsText (value : JsonValue) (text : String) : Bool :=
  match value with
  | .text found => found == text
  | _ => false

/-- Truth values are numbers. -/
def equalsNumber (value : JsonValue) (number : ℚ) : Bool :=
  match value with
  | .number found => found == number
  | .boolean found => (if found then 1 else 0) == number
  | _ => false

end Values

/-- `isoformat()` of a time in UTC. -/
def isoformat (t : Instant) : String :=
  let day := civil (date t)
  let second := (t / microsecondsPerSecond) % 86400
  let micro := (t % microsecondsPerSecond).toNat
  let padded (width n : ℕ) : List Char :=
    List.replicate (width - (Nat.toDigits 10 n).length) '0' ++ Nat.toDigits 10 n
  String.ofList (padded 4 day.year.toNat ++ '-' :: twoDigits day.month.toNat ++
    '-' :: twoDigits day.day.toNat ++ 'T' :: twoDigits (second / 3600).toNat ++
    ':' :: twoDigits (second / 60 % 60).toNat ++ ':' :: twoDigits (second % 60).toNat ++
    (if micro = 0 then [] else '.' :: padded 6 micro) ++ "+00:00".toList)

section Files

variable (lib : Library)

/-- `_uses_readable_ftp_layout`. -/
def usesReadableFtpLayout (remotePath : String) : Bool :=
  match (pureParts remotePath.toList).reverse with
  | _ :: second :: third :: _ => second == "backups".toList || third == "backups".toList
  | [_, second] => second == "backups".toList
  | _ => false

/-- The name of the file of an artifact in either layout. -/
def remoteFilename (target : BackupTarget) (revision : ConfigRevision) (readableNames : Bool)
    (readableStem : Option String) (artifact : ConfigArtifact) : String :=
  if readableNames then readableArtifactFilename lib.nfkd target revision readableStem artifact
  else artifactFilename artifact.storageKey artifact.artifactType

def manifestArtifact (filename : String) (artifact : ConfigArtifact) : JsonValue :=
  .object [("artifact_type", .text artifact.artifactType), ("format", .text artifact.format),
    ("filename", .text filename), ("size", .number artifact.size),
    ("sha256", .text artifact.rawHash), ("primary", .boolean artifact.isPrimary)]

/-- The value that `_build_manifest` writes. -/
def manifestPayload (target : BackupTarget) (revision : ConfigRevision)
    (artifacts : List ConfigArtifact) (readableNames : Bool) (readableStem : Option String)
    (deviceDirectoryOverride : Option String) : JsonValue :=
  .object [("schema", .number (if readableNames then 2 else 1)),
    ("revision_uuid", .text revision.revisionUuid), ("device_id", .number target.deviceId),
    ("device_name", (target.deviceName.map JsonValue.text).getD .null),
    ("device_directory", .text (match deviceDirectoryOverride with
      | some directory =>
        if directory = "" then deviceDirectoryName lib.nfkd target.deviceName target.deviceId
        else directory
      | none => deviceDirectoryName lib.nfkd target.deviceName target.deviceId)),
    ("driver_id", .text revision.driverId), ("created", .text (isoformat revision.created)),
    ("artifacts", .array (artifacts.map (fun artifact => manifestArtifact
      (remoteFilename lib target revision readableNames readableStem artifact) artifact)))]

def buildManifest (target : BackupTarget) (revision : ConfigRevision)
    (artifacts : List ConfigArtifact) (readableNames : Bool) (readableStem : Option String)
    (deviceDirectoryOverride : Option String) : List UInt8 :=
  lib.dumps (manifestPayload lib target revision artifacts readableNames readableStem
    deviceDirectoryOverride)

/-- `_expected_revision_files`. -/
def expectedRevisionFiles (target : BackupTarget) (revision : ConfigRevision)
    (artifacts : List ConfigArtifact) (readableNames : Bool) (readableStem : Option String)
    (manifestDeviceDirectory : Option String) :
    Except DestinationError (List ExpectedRemoteFile) := do
  let expected ← expectedArtifactFiles
    (remoteFilename lib target revision readableNames readableStem) [] artifacts
  let manifest := buildManifest lib target revision artifacts readableNames readableStem
    manifestDeviceDirectory
  pure (expected ++ [⟨manifestName, manifest.length, lib.sha256Hex manifest, "manifest"⟩])

/-- Whether a listed artifact is the expected one. -/
def matchesArtifact (value : JsonValue) (filename : String) (artifact : ConfigArtifact) : Bool :=
  match value with
  | .object fields =>
    hasFields fields ["artifact_type", "format", "filename", "size", "sha256", "primary"] &&
      equalsText (field fields "artifact_type") artifact.artifactType &&
      equalsText (field fields "format") artifact.format &&
      equalsText (field fields "filename") filename &&
      equalsNumber (field fields "size") artifact.size &&
      equalsText (field fields "sha256") artifact.rawHash &&
      equalsNumber (field fields "primary") (if artifact.isPrimary then 1 else 0)
  | _ => false

/-- Whether a list of listed artifacts is the expected one. An artifact without an expected
file has no counterpart. -/
def matchesArtifacts (expectedFiles : List ExpectedRemoteFile) :
    List JsonValue → List ConfigArtifact → Bool
  | [], [] => true
  | value :: values, artifact :: artifacts =>
    match (expectedFiles.filter (fun file => file.artifactType != "manifest")).reverse.find?
        (fun file => file.artifactType == artifact.artifactType) with
    | none => false
    | some file =>
      matchesArtifact value file.filename artifact &&
        matchesArtifacts expectedFiles values artifacts
  | _, _ => false

/-- `_manifest_matches_revision`. -/
def manifestMatchesRevision (content : List UInt8) (target : BackupTarget)
    (revision : ConfigRevision) (artifacts : List ConfigArtifact) (revisionPath : String)
    (expectedFiles : List ExpectedRemoteFile) : Bool :=
  match lib.loads content with
  | some (.object payload) =>
    let schema : ℚ := if usesReadableFtpLayout revisionPath then 2 else 1
    match (pureParts revisionPath.toList).reverse with
    | _ :: _ :: third :: rest =>
      let deviceSegment := match rest with
        | fourth :: _ => if third = "backups".toList then fourth else third
        | [] => third
      hasFields payload ["schema", "revision_uuid", "device_id", "device_name",
          "device_directory", "driver_id", "created", "artifacts"] &&
        (match field payload "device_name" with | .text _ => true | _ => false) &&
        equalsNumber (field payload "schema") schema &&
        equalsText (field payload "revision_uuid") revision.revisionUuid &&
        equalsNumber (field payload "device_id") target.deviceId &&
        equalsText (field payload "device_directory") (String.ofList deviceSegment) &&
        equalsText (field payload "driver_id") revision.driverId &&
        equalsText (field payload "created") (isoformat revision.created) &&
        (match field payload "artifacts" with
          | .array values => matchesArtifacts expectedFiles values artifacts
          | _ => false)
    | _ => false
  | _ => false

end Files

end ConfigBackup.RevisionFiles
