import ConfigBackup.MountedDeletion
import ConfigBackup.FtpUpload
import ConfigBackup.Workers

/-!
The upload of copies to a mounted directory that several workers share. A file is created
under its own name, and only if nothing is there; whatever is there is compared and never
written. A worker that stops, or an upload that fails, can leave a part of a file.
-/

namespace ConfigBackup.MountedUpload

open FileTrees FtpDeletion FtpServer FtpUpload IntegrityAudit Models MountedDeletion NewestCopies PosixPaths
  RecordedPaths RemoteFileNames Replication RevisionFiles Workers

/-- The tree of a mount, and which worker has created an entry. A descriptor refers to the
file that its worker has created, and to no other that has come to lie at the same path. -/
structure Share (ι : Type) where
  tree : MountedTree
  creator : List String → Option ι

/-- `FileNotFoundError`, `FileExistsError`, `PermissionError` and the other kinds of `OSError`. -/
inductive OsError
  | missing | exists | denied | other
deriving DecidableEq, Repr

inductive UploadFailure
  | os (e : OsError)
  | destination (e : DestinationError)
  | other
deriving DecidableEq, Repr

/-- The kinds of system calls. -/
inductive Call
  | inspect | read | mkdir | create | write | unlink
deriving DecidableEq, Repr

abbrev Upload (ι α : Type) := Worker Call (Share ι) UploadFailure α

section Calls

variable {ι : Type}

/-- Put an entry at a path that a worker creates. -/
def Share.create (w : Share ι) (me : ι) (name : String) (parent : List String)
    (entry : Entry MountedContent) : Share ι where
  tree := w.tree.update name parent (some entry)
  creator := fun p => if p = name :: parent then some me else w.creator p

/-- Give a file another content. -/
def Share.fill (w : Share ι) (name : String) (parent : List String) (content : List UInt8) :
    Share ι :=
  { w with tree := w.tree.update name parent (some (.file (.regular content))) }

def Share.remove (w : Share ι) (name : String) (parent : List String) : Share ι where
  tree := w.tree.update name parent none
  creator := fun p => if p = name :: parent then none else w.creator p

def look {α : Type} (kind : Call) (f : MountedTree → Except UploadFailure α) : Upload ι α :=
  send kind fun w => (f w.tree, w)

def pathExists (path : List String) : Upload ι Bool :=
  look .inspect fun tree => .ok (tree.get path).isSome

def isDirectory (path : List String) : Upload ι Bool :=
  look .inspect fun tree => .ok (decide (tree.get path = some .directory))

/-- Symbolic links are special files. -/
def isSymlink (path : List String) : Upload ι Bool :=
  look .inspect fun tree => .ok (decide (tree.get path = some (.file .special)))

def isFile (path : List String) : Upload ι Bool :=
  look .inspect fun tree => .ok (match tree.get path with
    | some (.file (.regular _)) => true
    | _ => false)

def statSize (path : List String) : Upload ι ℕ :=
  look .inspect fun tree =>
    match tree.get path with
    | some (.file (.regular content)) => .ok content.length
    | some _ => .ok 0
    | none => .error (.os .missing)

def readBytes (path : List String) : Upload ι (List UInt8) :=
  look .read fun tree =>
    match tree.get path with
    | some (.file (.regular content)) => .ok content
    | some _ => .error (.os .other)
    | none => .error (.os .missing)

variable (me : ι)

/-- Create an entry where nothing is, in a directory that is there. -/
def tryCreate (name : String) (parent : List String) (entry : Entry MountedContent)
    (w : Share ι) : Except UploadFailure Unit × Share ι :=
  if (w.tree.get (name :: parent)).isSome then (.error (.os .exists), w)
  else if ProperName name then
    match w.tree.get parent with
    | some .directory => (.ok (), w.create me name parent entry)
    | some (.file _) => (.error (.os .other), w)
    | none => (.error (.os .missing), w)
  else (.error (.os .missing), w)

theorem tryCreate_cases (name : String) (parent : List String) (entry : Entry MountedContent)
    (w : Share ι) : (∃ e, tryCreate me name parent entry w = (.error e, w)) ∨
      (w.tree.get (name :: parent) = none ∧ w.tree.get parent = some .directory ∧
        tryCreate me name parent entry w = (.ok (), w.create me name parent entry)) := by
  unfold tryCreate
  split
  · exact Or.inl ⟨_, rfl⟩
  · rename_i hnone
    rw [Option.isSome_iff_ne_none, not_not] at hnone
    split
    · split
      · rename_i hparent
        exact Or.inr ⟨hnone, hparent, rfl⟩
      · exact Or.inl ⟨_, rfl⟩
      · exact Or.inl ⟨_, rfl⟩
    · exact Or.inl ⟨_, rfl⟩

/-- `os.mkdir`. -/
def makeDirectory (name : String) (parent : List String) : Upload ι Unit :=
  send .mkdir (tryCreate me name parent .directory)

/-- `os.open` with `O_CREAT | O_EXCL`. -/
def openNew (name : String) (parent : List String) : Upload ι Unit :=
  send .create (tryCreate me name parent (.file (.regular [])))

/-- What is written to a descriptor goes to the file that the worker has created. -/
def writeBytes [DecidableEq ι] (name : String) (parent : List String) (content : List UInt8) :
    Upload ι Unit :=
  send .write fun w => (.ok (),
    if w.creator (name :: parent) = some me then w.fill name parent content else w)

/-- `os.fsync`, and the end of `with`. -/
def flush : Upload ι Unit := send .write fun w => (.ok (), w)

/-- `unlink(missing_ok=True)`. -/
def unlink (name : String) (parent : List String) : Upload ι Unit :=
  send .unlink fun w =>
    match w.tree.get (name :: parent) with
    | some (.file _) => (.ok (), w.remove name parent)
    | some .directory => (.error (.os .other), w)
    | none => (.ok (), w)

end Calls

section Program

variable {ι : Type} [DecidableEq ι] (me : ι)

/-- `exist_ok=True`: a directory that is there will do. -/
def orDirectory (path : List String) (e : UploadFailure) : Upload ι Unit :=
  match e with
  | .os _ => do
    if ← isDirectory path then pure () else raise e
  | e => raise e

/-- `mkdir(parents=True, exist_ok=True)`. -/
def mkdirs : List String → Upload ι Unit
  | [] => orDirectory [] (.os .exists)
  | name :: parent =>
    handle (fun e =>
      if e = .os .missing then do
        mkdirs parent
        handle (fun e => if e = .os .missing then raise e else orDirectory (name :: parent) e)
          (makeDirectory me name parent)
      else orDirectory (name :: parent) e) (makeDirectory me name parent)

/-- `_reject_symlink_path`. -/
def rejectSymlinkPath : List String → Upload ι Unit
  | [] => pure ()
  | name :: parent => do
    rejectSymlinkPath parent
    if ← pathExists (name :: parent) then
      if ← isSymlink (name :: parent) then
        raise (.destination ⟨"DESTINATION_PATH_INVALID",
          "The mounted-storage path contains a symbolic link."⟩)
      else pure ()
    else pure ()

variable (cut : List UInt8 → ℕ)

/-- `_write_new_file`; a content is written in two parts. -/
def writeNewFile (name : String) (parent : List String) (content : List UInt8) :
    Upload ι Unit := do
  openNew me name parent
  handle (fun e => do
      handle (fun e' =>
        match e' with
        | .os _ => pure ()
        | e' => raise e') (unlink name parent)
      raise e) do
    writeBytes me name parent (content.take (cut content))
    writeBytes me name parent content
    flush

variable (lib : Library)

/-- `_verify_file`. -/
def verifyFile (path : List String) (size : ℕ) (digest : String) : Upload ι FileState :=
  handle (fun e =>
    match e with
    | .os .missing => pure .missing
    | .os _ => pure .unreadable
    | e => raise e) do
    if ← isSymlink path then pure .missing
    else if ← isFile path then
      let found ← statSize path
      if found ≠ size then pure .sizeMismatch
      else
        let content ← readBytes path
        if lib.sha256Hex content ≠ digest then pure .hashMismatch else pure .ok
    else pure .missing

variable (path : List String)

/-- `_put_immutable`, down to a depth of the recursion. -/
def putImmutable (name : String) (content : List UInt8) (digest : String) : ℕ → Upload ι Bool
  | 0 => raise .other
  | depth + 1 => do
    if ← pathExists (name :: path) then
      let state ← verifyFile lib (name :: path) content.length digest
      if state = .ok then pure false
      else
        raise (.destination ⟨"DESTINATION_CONFLICT",
          "A different object already exists at the immutable revision path."⟩)
    else
      let taken ← handle (fun e => if e = .os .exists then pure true else raise e) do
        writeNewFile me cut name path content
        pure false
      if taken then putImmutable name content digest depth
      else
        let state ← verifyFile lib (name :: path) content.length digest
        if state = .ok then pure true
        else
          raise (.destination ⟨"DESTINATION_VERIFY_FAILED",
            "A mounted-storage artifact failed verification after writing it."⟩)

variable (read : String → Option (List UInt8)) (maxArtifactSize : ℕ)

/-- The content of an artifact in the primary storage. -/
def loadArtifact (artifact : ConfigArtifact) : Except DestinationError (List UInt8) :=
  if maxArtifactSize < artifact.size then
    .error ⟨"ARTIFACT_TOO_LARGE", "An artifact exceeds the mounted storage size limit."⟩
  else
    match read artifact.storageKey with
    | none => .error ⟨"PRIMARY_ARTIFACT_MISSING",
        "A primary backup artifact could not be read for replication."⟩
    | some content =>
      if content.length ≠ artifact.size ∨ lib.sha256Hex content ≠ artifact.rawHash then
        .error ⟨"PRIMARY_ARTIFACT_INVALID",
          "A primary backup artifact failed integrity verification."⟩
      else .ok content

/-- The next artifact to upload: its name and its content. -/
def nextUpload (expected : List ExpectedRemoteFile) (artifact : ConfigArtifact) :
    Except UploadFailure (String × List UInt8) :=
  match loadArtifact lib read maxArtifactSize artifact with
  | .error e => .error (.destination e)
  | .ok content =>
    match expectedByType expected artifact.artifactType with
    | none => .error .other
    | some file => .ok (file.filename, content)

variable (depth : ℕ)

/-- The loop over the artifacts, with the bytes that have been transferred. -/
def uploadArtifacts (expected : List ExpectedRemoteFile) :
    List ConfigArtifact → ℕ → Upload ι ℕ
  | [], transferred => pure transferred
  | artifact :: rest, transferred =>
    match nextUpload lib read maxArtifactSize expected artifact with
    | .error e => raise e
    | .ok (filename, content) => do
      let created ← putImmutable me cut lib path filename content (lib.sha256Hex content) depth
      uploadArtifacts expected rest (if created then transferred + content.length else transferred)

/-- The errors of the system calls. -/
def uploadError : UploadFailure → UploadFailure
  | .os .denied => .destination ⟨"DESTINATION_PATH_DENIED",
      "The NetBox worker cannot write to the mounted storage directory."⟩
  | .os _ => .destination ⟨"DESTINATION_WRITE_FAILED",
      "The revision could not be written to mounted storage."⟩
  | e => e

def uploadFiles (copy : AuditedCopy) (expected : List ExpectedRemoteFile)
    (manifest : List UInt8) : Upload ι ReplicationResult :=
  handle (fun e => raise (uploadError e)) do
    mkdirs me path
    rejectSymlinkPath path
    let transferred ← uploadArtifacts me cut lib path read maxArtifactSize depth expected
      copy.artifacts 0
    let created ← putImmutable me cut lib path manifestName manifest (lib.sha256Hex manifest) depth
    pure ⟨copy.replica.remotePath, if created then transferred + manifest.length else transferred,
      copy.artifacts.length⟩

/-- What is checked before the mount is looked at: the copy under its path, and its files. -/
def uploadFileset (destination : BackupDestination) (copy : AuditedCopy) :
    Except UploadFailure (AuditedCopy × List ExpectedRemoteFile × List UInt8) :=
  if destination.protocol.mounted = false then
    .error (.destination ⟨"PROTOCOL_UNSUPPORTED",
      "This operation requires an NFS or SMB3 mounted storage profile."⟩)
  else if destination.enabled = false then
    .error (.destination ⟨"DESTINATION_DISABLED", "The mounted storage is disabled."⟩)
  else if copy.artifacts = [] then
    .error (.destination ⟨"NO_ARTIFACTS", "The revision contains no backup artifacts."⟩)
  else
    let remotePath := if copy.replica.remotePath = "" then
        pathOf lib.nfkd destination copy.target copy.revision
      else some copy.replica.remotePath
    match remotePath with
    | none => .error .other
    | some remotePath =>
      let copy := { copy with replica := { copy.replica with remotePath := remotePath } }
      match validateRecordedRevisionPath lib.nfkd destination copy.revision copy.target.deviceId
          copy.replica.remotePath "REPLICATION_PATH_INVALID" with
      | .error e => .error (.destination e)
      | .ok (_, deviceDirectory) =>
        match expectedFilesOf lib copy (some deviceDirectory) with
        | .error e => .error (.destination e)
        | .ok expected =>
          .ok (copy, expected, buildManifest lib copy.target copy.revision copy.artifacts
            (usesReadableFtpLayout copy.replica.remotePath)
            (readableStemFromRevisionPath lib.nfkd copy.target copy.revision
              copy.replica.remotePath) (some deviceDirectory))

/-- `replicate_revision_mounted`; the mount is found below its allowed root or not. -/
def replicateRevisionMounted (root : Except DestinationError Unit)
    (destination : BackupDestination) (copy : AuditedCopy) : Upload ι ReplicationResult :=
  match uploadFileset lib destination copy, root with
  | .error e, _ => raise e
  | .ok _, .error e => raise (.destination e)
  | .ok (copy, expected, manifest), .ok () =>
    uploadFiles me cut lib (remoteDirectory copy.replica.remotePath) read
      destination.maxArtifactSize depth copy expected manifest

end Program

end ConfigBackup.MountedUpload
