import ConfigBackup.FtpDeletion

/-!
The upload of a copy over FTP. A file is uploaded under a temporary name, read back and
renamed; whatever exists under its own name is compared and never written.
-/

namespace ConfigBackup.FtpUpload

open FileTrees FtpDeletion FtpListings FtpServer IntegrityAudit Models NewestCopies PosixPaths
  RecordedPaths RemoteFileNames Replication Requests RevisionFiles

structure ReplicationResult where
  remotePath : String
  bytesTransferred : ℕ
  artifactCount : ℕ
deriving DecidableEq, Repr

/-- `except ftplib.all_errors`: an error of the client gets a code. -/
def orRaise {α : Type} (m : Ftp α) (error : FtpError → DestinationError) : Ftp α :=
  handle m fun e =>
    match e with
    | .ftp e => throw (.destination (error e))
    | e => throw e

section Program

variable (conn : Connection)

/-- `_cwd_after_mkdir`, with the number of attempts that are left. -/
def cwdAfterMkdir (path : List String) : ℕ → Ftp Unit
  | 0 => throw (.destination ⟨"DESTINATION_PATH_TEMPORARY",
      "The FTP server did not make a newly created directory available in time."⟩)
  | attempts + 1 => do
    match ← attempt (cwd conn path) with
    | .ok () => pure ()
    | .error (.ftp e) =>
      if e.kind = .other then
        throw (.destination ⟨"DESTINATION_PATH_FAILED",
          "The FTP connection failed while entering a new destination directory."⟩)
      else if isDeniedFtpError e then
        throw (.destination ⟨"DESTINATION_PATH_DENIED",
          "The FTP account cannot enter the destination directory."⟩)
      else cwdAfterMkdir path attempts
    | .error e => throw e

/-- `_mkdirs`. -/
def mkdirs : List String → Ftp Unit
  | [] => pure ()
  | name :: parent => do
    mkdirs parent
    match ← attempt (cwd conn (name :: parent)) with
    | .ok () => pure ()
    | .error (.ftp e) =>
      if e.kind = .other then throw (.ftp e)
      else if isDeniedFtpError e then
        throw (.destination ⟨"DESTINATION_PATH_UNREADABLE",
          "The FTP destination directory could not be inspected safely."⟩)
      else if ← absentFromParentListing conn (name :: parent) then
        let _ ← attempt (mkd conn name parent)
        cwdAfterMkdir conn (name :: parent) 5
      else
        throw (.destination ⟨"DESTINATION_PATH_UNREADABLE",
          "The FTP destination directory could not be inspected safely."⟩)
    | .error e => throw e

def verifyFailed (safeMessage : String) : DestinationError :=
  ⟨"DESTINATION_VERIFY_FAILED", safeMessage⟩

/-- `_read_remote`. -/
def readBack (path : List String) (maxBytes : ℕ) : Ftp (List UInt8) := do
  let size ← orRaise (do typeImage conn; size conn path)
    fun _ => verifyFailed "The uploaded FTP object could not be inspected."
  match size with
  | none => throw (.destination (verifyFailed "The uploaded FTP object has an invalid size."))
  | some size =>
    if size < 0 ∨ maxBytes < size then
      throw (.destination (verifyFailed "The uploaded FTP object has an invalid size."))
    else
      let content ← orRaise (retr conn path)
        fun _ => verifyFailed "The uploaded FTP object could not be read back for verification."
      if content.length ≠ size then
        throw (.destination (verifyFailed "The uploaded FTP object is incomplete."))
      else pure content

variable (lib : Library) (residue : List UInt8 → List UInt8) (path : List String)

/-- `_store`. -/
def store (name : String) (content : List UInt8) : Ftp Unit :=
  orRaise (stor conn residue name path content) fun e =>
    match e.kind with
    | .temp => ⟨"DESTINATION_UPLOAD_TEMPORARY",
        "The FTP server temporarily rejected the artifact upload."⟩
    | .perm => ⟨"DESTINATION_UPLOAD_DENIED", "The FTP server rejected the artifact upload."⟩
    | .other => ⟨"DESTINATION_UPLOAD_FAILED", "The FTP artifact upload failed."⟩

/-- An upload under the temporary name that is read back and renamed. -/
def uploadVerified (name : String) (content : List UInt8) (digest : String) : Ftp Unit := do
  store conn residue path (temporaryName name) content
  let uploaded ← readBack conn (temporaryName name :: path) content.length
  if lib.sha256Hex uploaded ≠ digest then
    throw (.destination (verifyFailed "The FTP artifact hash did not match after upload."))
  else
    orRaise (rename conn (temporaryName name) name path) fun _ =>
      ⟨"DESTINATION_FINALIZE_FAILED",
        "The verified FTP artifact could not be finalized atomically."⟩

/-- `_put_immutable`. -/
def putImmutable (name : String) (content : List UInt8) (digest : String) : Ftp Bool := do
  if ← remoteExists conn (name :: path) then
    let existing ← readBack conn (name :: path) content.length
    if lib.sha256Hex existing = digest then pure false
    else throw (.destination ⟨"DESTINATION_CONFLICT",
      "A different object already exists at the immutable FTP revision path."⟩)
  else
    let result ← attempt (uploadVerified conn lib residue path name content digest)
    let _ ← attempt (delete conn (temporaryName name) path)
    match result with
    | .ok () => pure true
    | .error e => throw e

variable (read : String → Option (List UInt8)) (maxArtifactSize : ℕ)

/-- The content of an artifact in the primary storage. -/
def loadArtifact (artifact : ConfigArtifact) : Except DestinationError (List UInt8) :=
  if maxArtifactSize < artifact.size then
    .error ⟨"ARTIFACT_TOO_LARGE", "An artifact exceeds the configured FTP destination size limit."⟩
  else
    match read artifact.storageKey with
    | none => .error ⟨"PRIMARY_ARTIFACT_MISSING",
        "A primary backup artifact could not be read for replication."⟩
    | some content =>
      if content.length ≠ artifact.size ∨ lib.sha256Hex content ≠ artifact.rawHash then
        .error ⟨"PRIMARY_ARTIFACT_INVALID",
          "A primary backup artifact failed integrity verification."⟩
      else .ok content

/-- `expected_by_type`. -/
def expectedByType (expected : List ExpectedRemoteFile) (artifactType : String) :
    Option ExpectedRemoteFile :=
  (expected.filter (fun file => file.artifactType != "manifest")).reverse.find?
    (fun file => file.artifactType == artifactType)

/-- The loop over the artifacts, with the bytes that have been transferred. -/
def uploadArtifacts (expected : List ExpectedRemoteFile) : List ConfigArtifact → ℕ → Ftp ℕ
  | [], transferred => pure transferred
  | artifact :: rest, transferred =>
    match loadArtifact lib read maxArtifactSize artifact with
    | .error e => throw (.destination e)
    | .ok content =>
      match expectedByType expected artifact.artifactType with
      | none => throw .other
      | some file => do
        let created ← putImmutable conn lib residue path file.filename content
          (lib.sha256Hex content)
        uploadArtifacts expected rest (if created then transferred + content.length else transferred)

/-- The manifest: an existing one is compared field by field. -/
def uploadManifest (copy : AuditedCopy) (expected : List ExpectedRemoteFile)
    (manifest : List UInt8) : Ftp ℕ := do
  if ← remoteExists conn (manifestName :: path) then
    let existing ← handle (readBack conn (manifestName :: path) maxManifestBytes) fun e =>
      match e with
      | .destination _ => throw (.destination ⟨"DESTINATION_CONFLICT",
          "The immutable FTP revision manifest could not be verified."⟩)
      | e => throw e
    if manifestMatchesRevision lib existing copy.target copy.revision copy.artifacts
        copy.replica.remotePath expected then pure 0
    else throw (.destination ⟨"DESTINATION_CONFLICT",
      "A different manifest exists at the immutable FTP revision path."⟩)
  else
    let created ← putImmutable conn lib residue path manifestName manifest (lib.sha256Hex manifest)
    pure (if created then manifest.length else 0)

/-- The error of a phase. -/
def phaseError (errorCode safeMessage : String) (e : FtpError) : DestinationError :=
  if e.kind = .perm then
    ⟨"DESTINATION_PATH_DENIED", "The FTP account cannot write to the configured destination path."⟩
  else ⟨errorCode, safeMessage⟩

/-- The upload of the files of a copy, phase by phase. -/
def uploadFiles (copy : AuditedCopy) (expected : List ExpectedRemoteFile)
    (manifest : List UInt8) : Ftp ReplicationResult := do
  orRaise (mkdirs conn path) (phaseError "DESTINATION_DIRECTORY_FAILED"
    "The FTP revision directory could not be prepared.")
  let transferred ← orRaise (uploadArtifacts conn lib residue path read maxArtifactSize expected
    copy.artifacts 0) (phaseError "DESTINATION_ARTIFACT_FAILED"
    "An FTP revision artifact operation failed.")
  let bytes ← orRaise (uploadManifest conn lib residue path copy expected manifest)
    (phaseError "DESTINATION_MANIFEST_FAILED" "The FTP revision manifest operation failed.")
  pure ⟨copy.replica.remotePath, transferred + bytes, copy.artifacts.length⟩

/-- What is checked before files are uploaded: the copy under its path, and its files. -/
def uploadFileset (destination : BackupDestination) (copy : AuditedCopy) :
    Except Failure (AuditedCopy × List ExpectedRemoteFile × List UInt8) :=
  if destination.enabled = false then
    .error (.destination ⟨"DESTINATION_DISABLED", "The FTP destination is disabled."⟩)
  else if copy.artifacts = [] then
    .error (.destination ⟨"NO_ARTIFACTS", "The revision contains no backup artifacts."⟩)
  else
    let remotePath := if copy.replica.remotePath = "" then
        pathOf lib.nfkd destination copy.target copy.revision
      else some copy.replica.remotePath
    match remotePath with
    | none => .error .other
    | some remotePath =>
      let copy := { copy with replica := { copy.replica with remotePath := remotePath } }
      match validateRecordedRevisionPath lib.nfkd destination copy.revision copy.target.deviceId
          copy.replica.remotePath "REPLICATION_PATH_INVALID" with
      | .error e => .error (.destination e)
      | .ok (_, deviceDirectory) =>
        match expectedFilesOf lib copy (some deviceDirectory) with
        | .error e => .error (.destination e)
        | .ok expected =>
          .ok (copy, expected, buildManifest lib copy.target copy.revision copy.artifacts
            (usesReadableFtpLayout copy.replica.remotePath)
            (readableStemFromRevisionPath lib.nfkd copy.target copy.revision
              copy.replica.remotePath) (some deviceDirectory))

/-- `replicate_revision_ftp`, on the connection of the destination. -/
def replicateRevisionFtp (destination : BackupDestination) (copy : AuditedCopy) :
    Ftp ReplicationResult :=
  match uploadFileset lib destination copy with
  | .error e => throw e
  | .ok (copy, expected, manifest) =>
    uploadFiles conn lib residue (remoteDirectory copy.replica.remotePath) read
      destination.maxArtifactSize copy expected manifest

end Program

section Commands

variable {conn : Connection} {inv p : Site → Prop} {path : List String} {name : String}
  {parent : List String} {content : List UInt8}

/-- A command that reads, or changes the directory, keeps what is known of the files. -/
theorem runs_reading {α : Type} {f : Site → Except FtpError α} (hinv : ∀ w, p w → inv w) :
    Runs inv p (command conn fun w => (f w, w)) (fun a w => f w = .ok a ∧ p w) (fun _ w => p w) :=
  runs_command hinv (fun _ _ _ hw => hw) (fun _ _ _ hw => hw) (fun _ _ hw hok => ⟨hok, hw⟩)
    fun _ _ hw _ => hw

theorem runs_orRaise {α : Type} {m : Ftp α} {post : α → Site → Prop} {raised : Site → Prop}
    {pre : Site → Prop} {error : FtpError → DestinationError}
    (h : Runs inv pre m post fun _ w => raised w) :
    Runs inv pre (orRaise m error) post (fun _ w => raised w) := by
  refine Runs.handle h fun e => ?_
  cases e with
  | ftp e => exact runs_throw fun _ hw => hw
  | destination e => exact runs_throw fun _ hw => hw
  | other => exact runs_throw fun _ hw => hw

/-- What was read back is the content of the file. -/
theorem runs_readBack (hinv : ∀ w, p w → inv w) (maxBytes : ℕ) :
    Runs inv p (readBack conn path maxBytes)
      (fun content w => w.get path = some (.file content) ∧ p w) (fun _ w => p w) := by
  have hsize : Runs inv p (do typeImage conn; size conn path) (fun _ w => p w) (fun _ w => p w) :=
    Runs.bind ((runs_reading hinv).mono (fun _ _ hw => hw.2) fun _ _ hw => hw) fun _ =>
      (runs_reading hinv).mono (fun _ _ hw => hw.2) fun _ _ hw => hw
  have hretr : Runs inv p (retr conn path)
      (fun content w => w.get path = some (.file content) ∧ p w) (fun _ w => p w) := by
    refine (runs_reading hinv).mono (fun content w hw => ⟨?_, hw.2⟩) fun _ _ hw => hw
    have hcontent := hw.1
    unfold contentOf at hcontent
    split at hcontent
    · rename_i found hentry
      rw [hentry, Except.ok.inj hcontent]
    · cases hcontent
    · cases hcontent
  unfold readBack
  refine Runs.bind (runs_orRaise hsize) fun size => ?_
  cases size with
  | none => exact runs_throw fun _ hw => hw
  | some size =>
    dsimp only
    split
    · exact runs_throw fun _ hw => hw
    · refine Runs.bind (runs_orRaise hretr) fun content => ?_
      split
      · exact runs_throw fun _ hw => hw.2
      · exact runs_pure fun _ hw => hw

/-- A path that does not exist has no file. -/
theorem runs_remoteExists (hinv : ∀ w, p w → inv w) (hstable : Stable p) :
    Runs inv p (remoteExists conn path)
      (fun found w => (found = false → ∀ content, w.get path ≠ some (.file content)) ∧ p w)
      (fun _ w => p w) := by
  have hlist : Runs inv p (nlstPath conn path)
      (fun entries w => (entries = [] → ∀ content, w.get path ≠ some (.file content)) ∧ p w)
      (fun e w => (∀ e', e = .ftp e' → isMissingFtpError e' = true →
        ∀ content, w.get path ≠ some (.file content)) ∧ p w) := by
    have hfailed : ∀ n w, p w → (∀ e', Failure.ftp (conn.failures n) = .ftp e' →
        isMissingFtpError e' = true → ∀ content, w.get path ≠ some (.file content)) ∧ p w := by
      intro n w hw
      refine ⟨fun e' he hmissing => ?_, hw⟩
      rw [← Failure.ftp.inj he, conn.honest n] at hmissing
      cases hmissing
    refine runs_command hinv (fun n w _ hw => hfailed n w hw) (fun n w _ hw => hfailed n w hw) ?_ ?_
    · intro w entries hw hok
      refine ⟨?_, hw⟩
      rintro rfl content hentry
      dsimp only at hok
      rw [hentry] at hok
      have hpath : path = [] := by
        cases path with
        | nil => rfl
        | cons name parent => cases hok
      rw [hpath, Site.get, w.tree.root] at hentry
      cases hentry
    · intro w e hw herror
      refine ⟨fun _ _ _ content hentry => ?_, hw⟩
      dsimp only at herror
      rw [hentry] at herror
      cases herror
  unfold remoteExists
  refine Runs.bind hlist.attempt fun reply => ?_
  rcases reply with (e | e | _) | entries
  · dsimp only
    split
    · rename_i hmissing
      exact runs_pure fun w hw => ⟨fun _ => hw.1 e rfl hmissing, hw.2⟩
    · split
      · exact runs_throw fun w hw => hw.2
      · have hproof := @runs_absentFromParentListing conn _ _ hinv hstable path
        refine Runs.bind ((hproof.weaken fun w hw => hw.2).mono (fun _ _ hw => hw) fun _ _ hw => hw.elim)
          fun absent => ?_
        split
        · rename_i habsent
          refine runs_pure fun w hw => ⟨fun _ content hentry => ?_, hw.2.2⟩
          rw [hw.1 habsent] at hentry
          cases hentry
        · exact runs_throw fun w hw => hw.2.2
  · exact runs_throw fun w hw => hw.2
  · exact runs_throw fun w hw => hw.2
  · refine runs_pure fun w hw => ⟨fun hfound => hw.1 ?_, hw.2⟩
    simpa using hfound

theorem runs_write (hinv : ∀ w, p w → inv w)
    (hput : ∀ w, p w → p (w.put name parent (some (.file content)))) :
    Runs inv p (write conn name parent content)
      (fun _ w => w.get (name :: parent) = some (.file content) ∧ p w) (fun _ w => p w) := by
  refine runs_command_keeping hinv (fun _ hw => hw) ?_ ?_
  · intro w hw
    split
    · exact hw
    · split
      · exact hput w hw
      · exact hw
    · exact hw
  · intro w u hw hok
    split at hok
    · cases hok
    · rename_i hparent hentry
      split at hok
      · rename_i hname
        rw [if_pos hname]
        exact ⟨Site.get_put_self hname (FileTree.Admits.leaf hparent hentry), hput w hw⟩
      · cases hok
    · cases hok

theorem runs_store (residue : List UInt8 → List UInt8) (hinv : ∀ w, p w → inv w)
    (hput : ∀ w content, p w → p (w.put name parent (some (.file content)))) :
    Runs inv p (store conn residue parent name content)
      (fun _ w => w.get (name :: parent) = some (.file content) ∧ p w) (fun _ w => p w) := by
  unfold store stor
  refine runs_orRaise (Runs.bind (runs_write hinv fun w hw => hput w _ hw) fun _ => ?_)
  exact (runs_write hinv fun w hw => hput w _ hw).weaken fun w hw => hw.2

/-- A file that is renamed to a free name has been uploaded in full. -/
theorem runs_rename {fromName toName : String} (hne : fromName ≠ toName)
    (hinv : ∀ w, p w → inv w)
    (hcreate : ∀ w, p w → w.get (toName :: parent) = none →
      p (w.put toName parent (some (.file content))))
    (hclean : ∀ w, p w → p (w.put fromName parent none)) :
    Runs inv (fun w => w.get (fromName :: parent) = some (.file content) ∧
        (∀ other, w.get (toName :: parent) ≠ some (.file other)) ∧ p w)
      (rename conn fromName toName parent) (fun _ w => ProperName toName ∧ p w)
      (fun _ w => p w) := by
  have hafter : ∀ w, w.get (toName :: parent) = none → p w →
      p ((w.put toName parent (some (.file content))).put fromName parent none) :=
    fun w hnone hw => hclean _ (hcreate w hw hnone)
  refine runs_command_keeping (fun w hw => hinv w hw.2.2) (fun _ hw => hw.2.2) ?_ ?_
  · rintro w ⟨hfrom, hto, hw⟩
    rw [hfrom]
    cases hentry : w.get (toName :: parent) with
    | none =>
      dsimp only
      rw [if_neg hne]
      split
      · exact hw
      · exact hafter w hentry hw
    | some entry =>
      cases entry with
      | file other => exact absurd hentry (hto other)
      | directory => exact hw
  · rintro w u ⟨hfrom, hto, hw⟩ hok
    rw [hfrom] at hok ⊢
    cases hentry : w.get (toName :: parent) with
    | none =>
      rw [hentry] at hok
      dsimp only at hok ⊢
      rw [if_neg hne] at hok ⊢
      split at hok
      · cases hok
      · rename_i hrefused
        rw [if_neg hrefused]
        refine ⟨?_, hafter w hentry hw⟩
        simpa using hrefused
    | some entry =>
      cases entry with
      | file other => exact absurd hentry (hto other)
      | directory =>
        rw [hentry] at hok
        cases hok

theorem runs_delete (hinv : ∀ w, p w → inv w) (hclean : ∀ w, p w → p (w.put name parent none)) :
    Runs inv p (delete conn name parent) (fun _ w => p w) (fun _ w => p w) := by
  refine runs_command_invariant hinv fun w hw => ?_
  split
  · exact hclean w hw
  · exact hw
  · exact hw

end Commands

section Uploads

variable {conn : Connection} {lib : Library} {residue : List UInt8 → List UInt8}
  {inv p : Site → Prop} {path : List String} {name : String} {content : List UInt8}
  {digest : String}

/-- The changes that an upload of a file makes, one at a time. -/
structure Keeps (p : Site → Prop) (path : List String) (name : String) (content : List UInt8) :
    Prop where
  stable : Stable p
  upload : ∀ w part, p w → p (w.put (temporaryName name) path (some (.file part)))
  create : ∀ w, p w → w.get (name :: path) = none →
    p (w.put name path (some (.file content)))
  clean : ∀ w, p w → p (w.put (temporaryName name) path none)

theorem temporaryName_ne (name : String) : temporaryName name ≠ name :=
  (ne_temporaryName name).symm

/-- The temporary file is not the file that is uploaded. -/
theorem get_put_temporary {w : Site} {value : Option (Entry (List UInt8))} :
    (w.put (temporaryName name) path value).get (name :: path) = w.get (name :: path) :=
  Site.get_put_of_ne (cons_ne_cons (ne_temporaryName name))

theorem runs_uploadVerified (hinv : ∀ w, p w → inv w) (h : Keeps p path name content) :
    Runs inv (fun w => (∀ other, w.get (name :: path) ≠ some (.file other)) ∧ p w)
      (uploadVerified conn lib residue path name content digest)
      (fun _ w => ProperName name ∧ p w) (fun _ w => p w) := by
  have hstore := @runs_store conn inv
    (fun w => (∀ other, w.get (name :: path) ≠ some (.file other)) ∧ p w) (temporaryName name)
    path content residue (fun w hw => hinv w hw.2) fun w part hw =>
      ⟨by rw [get_put_temporary]; exact hw.1, h.upload w part hw.2⟩
  unfold uploadVerified
  refine Runs.bind (hstore.mono (fun _ _ hw => hw) fun _ _ hw => hw.2) fun _ => ?_
  have hread := @runs_readBack conn inv
    (fun w => w.get (temporaryName name :: path) = some (.file content) ∧
      (∀ other, w.get (name :: path) ≠ some (.file other)) ∧ p w)
    (temporaryName name :: path) (fun w hw => hinv w hw.2.2) content.length
  refine Runs.bind (hread.mono (fun _ w hw => hw.2) fun _ _ hw => hw.2.2) fun uploaded => ?_
  split
  · exact runs_throw fun w hw => hw.2.2
  · exact runs_orRaise (runs_rename (temporaryName_ne name) hinv h.create h.clean)

/-- A file that exists is compared, and any other is created with its own content. -/
theorem runs_putImmutable (hinv : ∀ w, p w → inv w) (h : Keeps p path name content) :
    Runs inv p (putImmutable conn lib residue path name content digest)
      (fun _ w => ProperName name ∧ p w) (fun _ w => p w) := by
  unfold putImmutable
  refine Runs.bind (runs_remoteExists hinv h.stable) fun found => ?_
  cases found with
  | true =>
    rw [if_pos rfl]
    refine Runs.bind ((runs_readBack hinv content.length).weaken fun w hw => hw.2) fun existing => ?_
    split
    · refine runs_pure fun w hw => ⟨?_, hw.2⟩
      refine @Site.properName w name path ?_
      rw [hw.1]
      simp
    · exact runs_throw fun w hw => hw.2
  | false =>
    rw [if_neg Bool.false_ne_true]
    refine Runs.bind ((runs_uploadVerified hinv h).weaken fun w hw => ⟨hw.1 rfl, hw.2⟩).attempt
      fun result => ?_
    cases result with
    | ok u =>
      refine Runs.bind (runs_delete (fun w hw => hinv w hw.2) fun w hw =>
        ⟨hw.1, h.clean w hw.2⟩).attempt fun cleaned => ?_
      cases cleaned with
      | ok v => exact runs_pure fun w hw => hw
      | error e => exact runs_pure fun w hw => hw
    | error e =>
      refine Runs.bind (runs_delete hinv h.clean).attempt fun cleaned => ?_
      cases cleaned with
      | ok v => exact runs_throw fun w hw => hw
      | error e => exact runs_throw fun w hw => hw

theorem runs_cwdAfterMkdir (hinv : ∀ w, p w → inv w) (hstable : Stable p) (attempts : ℕ) :
    Runs inv p (cwdAfterMkdir conn path attempts) (fun _ w => p w) (fun _ w => p w) := by
  induction attempts with
  | zero => exact runs_throw fun w hw => hw
  | succ attempts ih =>
    unfold cwdAfterMkdir
    have hcwd := (@runs_cwd conn inv p path hinv hstable).mono (fun _ _ hw => hw.2.2)
      fun _ w ⟨_, _, _, hw⟩ => hw
    refine Runs.bind hcwd.attempt fun reply => ?_
    rcases reply with (e | e | _) | -
    · dsimp only
      split
      · exact runs_throw fun w hw => hw
      · split
        · exact runs_throw fun w hw => hw
        · exact ih
    · exact runs_throw fun w hw => hw
    · exact runs_throw fun w hw => hw
    · exact runs_pure fun w hw => hw

theorem runs_mkd {parent : List String} (hinv : ∀ w, p w → inv w)
    (hmkdir : ∀ w, p w → w.get (name :: parent) = none →
      p (w.put name parent (some .directory))) :
    Runs inv p (mkd conn name parent) (fun _ w => p w) (fun _ w => p w) := by
  refine runs_command_invariant hinv fun w hw => ?_
  split
  · rename_i hnone
    split
    · exact hmkdir w hw hnone
    · exact hw
  · exact hw
  · exact hw

/-- Directories are made only where nothing is. -/
theorem runs_mkdirs (hinv : ∀ w, p w → inv w) (hstable : Stable p)
    (hmkdir : ∀ w name parent, p w → w.get (name :: parent) = none →
      p (w.put name parent (some .directory))) :
    Runs inv p (mkdirs conn path) (fun _ w => p w) (fun _ w => p w) := by
  induction path with
  | nil => exact runs_pure fun w hw => hw
  | cons name parent ih =>
    unfold mkdirs
    refine Runs.bind ih fun _ => ?_
    have hcwd := (@runs_cwd conn inv p (name :: parent) hinv hstable).mono
      (fun _ _ hw => hw.2.2) fun _ w ⟨_, _, _, hw⟩ => hw
    refine Runs.bind hcwd.attempt fun reply => ?_
    rcases reply with (e | e | _) | -
    · dsimp only
      split
      · exact runs_throw fun w hw => hw
      · split
        · exact runs_throw fun w hw => hw
        · have hproof := @runs_absentFromParentListing conn inv p hinv hstable (name :: parent)
          refine Runs.bind (hproof.mono (fun _ _ hw => hw.2.2) fun _ _ hw => hw.elim) fun absent => ?_
          split
          · refine Runs.bind (runs_mkd hinv fun w => hmkdir w name parent).attempt fun made => ?_
            cases made with
            | ok u => exact runs_cwdAfterMkdir hinv hstable 5
            | error e => exact runs_cwdAfterMkdir hinv hstable 5
          · exact runs_throw fun w hw => hw
    · exact runs_throw fun w hw => hw
    · exact runs_throw fun w hw => hw
    · exact runs_pure fun w hw => hw

end Uploads

section Loops

variable {conn : Connection} {lib : Library} {residue : List UInt8 → List UInt8}
  {inv p : Site → Prop} {path : List String} {read : String → Option (List UInt8)}
  {maxArtifactSize : ℕ} {expected : List ExpectedRemoteFile} {copy : AuditedCopy}
  {artifact : ConfigArtifact} {content manifest : List UInt8}

/-- The names under which the loop uploads, up to one that is no name of an entry. -/
def uploadedNames (lib : Library) (read : String → Option (List UInt8)) (maxArtifactSize : ℕ)
    (expected : List ExpectedRemoteFile) : List ConfigArtifact → List String
  | [] => [manifestName]
  | artifact :: rest =>
    match loadArtifact lib read maxArtifactSize artifact,
      expectedByType expected artifact.artifactType with
    | .ok _, some file =>
      if ProperName (temporaryName file.filename) then
        file.filename ::
          (if ProperName file.filename then uploadedNames lib read maxArtifactSize expected rest
          else [])
      else []
    | _, _ => []

/-- What is loaded has the recorded size and hash. -/
theorem loadArtifact_ok (h : loadArtifact lib read maxArtifactSize artifact = .ok content) :
    content.length = artifact.size ∧ lib.sha256Hex content = artifact.rawHash := by
  unfold loadArtifact at h
  split at h
  · cases h
  · split at h
    · cases h
    · split at h
      · cases h
      · rename_i hvalid
        obtain rfl := Except.ok.inj h
        simpa using hvalid

/-- Every upload of the loop, as far as it goes, keeps a predicate. -/
def KeepsAll (p : Site → Prop) (lib : Library) (path : List String)
    (read : String → Option (List UInt8)) (maxArtifactSize : ℕ)
    (expected : List ExpectedRemoteFile) (manifest : List UInt8) : List ConfigArtifact → Prop
  | [] => Keeps p path manifestName manifest
  | artifact :: rest => ∀ content file,
    loadArtifact lib read maxArtifactSize artifact = .ok content →
    expectedByType expected artifact.artifactType = some file →
    Keeps p path file.filename content ∧ (ProperName file.filename →
      KeepsAll p lib path read maxArtifactSize expected manifest rest)

theorem keepsAll_of_forall (h : ∀ name content, Keeps p path name content)
    (artifacts : List ConfigArtifact) :
    KeepsAll p lib path read maxArtifactSize expected manifest artifacts := by
  induction artifacts with
  | nil => exact h manifestName manifest
  | cons artifact rest ih => exact fun content file _ _ => ⟨h file.filename content, fun _ => ih⟩

theorem runs_uploadArtifacts (hinv : ∀ w, p w → inv w) {artifacts : List ConfigArtifact}
    (h : KeepsAll p lib path read maxArtifactSize expected manifest artifacts)
    (transferred : ℕ) :
    Runs inv p (uploadArtifacts conn lib residue path read maxArtifactSize expected artifacts
        transferred)
      (fun _ w => Keeps p path manifestName manifest ∧ p w) (fun _ w => p w) := by
  induction artifacts generalizing transferred with
  | nil => exact runs_pure fun w hw => ⟨h, hw⟩
  | cons artifact rest ih =>
    unfold uploadArtifacts
    split
    · exact runs_throw fun w hw => hw
    · rename_i content hload
      split
      · exact runs_throw fun w hw => hw
      · rename_i file hfile
        obtain ⟨hkeeps, hrest⟩ := h content file hload hfile
        refine Runs.bind (runs_putImmutable hinv hkeeps) fun created => ?_
        exact Runs.assume fun hname => ih (hrest hname) _

theorem runs_uploadManifest (hinv : ∀ w, p w → inv w) (h : Keeps p path manifestName manifest) :
    Runs inv p (uploadManifest conn lib residue path copy expected manifest) (fun _ w => p w)
      (fun _ w => p w) := by
  unfold uploadManifest
  refine Runs.bind ((runs_remoteExists hinv h.stable).mono (fun _ _ hw => hw.2) fun _ _ hw => hw)
    fun found => ?_
  split
  · have hread := (@runs_readBack conn inv p (manifestName :: path) hinv maxManifestBytes).mono
      (fun _ _ hw => hw.2) fun _ _ hw => hw
    refine Runs.bind (Runs.handle hread fun e => ?_) fun existing => ?_
    · cases e with
      | ftp e => exact runs_throw fun w hw => hw
      | destination e => exact runs_throw fun w hw => hw
      | other => exact runs_throw fun w hw => hw
    · split
      · exact runs_pure fun w hw => hw
      · exact runs_throw fun w hw => hw
  · refine Runs.bind ((runs_putImmutable hinv h).mono (fun _ _ hw => hw.2) fun _ _ hw => hw)
      fun created => ?_
    exact runs_pure fun w hw => hw

/-- The upload of the files of a copy keeps what each of its changes keeps. -/
theorem runs_uploadFiles (hinv : ∀ w, p w → inv w) (hstable : Stable p)
    (hmkdir : ∀ w name parent, p w → w.get (name :: parent) = none →
      p (w.put name parent (some .directory)))
    (h : KeepsAll p lib path read maxArtifactSize expected manifest copy.artifacts) :
    Runs inv p (uploadFiles conn lib residue path read maxArtifactSize copy expected manifest)
      (fun _ w => p w) (fun _ w => p w) := by
  unfold uploadFiles
  refine Runs.bind (runs_orRaise (runs_mkdirs hinv hstable hmkdir)) fun _ => ?_
  refine Runs.bind (runs_orRaise (runs_uploadArtifacts hinv h 0)) fun transferred => ?_
  refine Runs.assume fun hmanifest => ?_
  refine Runs.bind (runs_orRaise (runs_uploadManifest hinv hmanifest)) fun bytes => ?_
  exact runs_pure fun w hw => hw

end Loops

section Damage

variable {lib : Library} {path : List String} {expected : List ExpectedRemoteFile}
  {before after : Site} {read : String → Option (List UInt8)} {maxArtifactSize : ℕ}
  {copy : AuditedCopy}

/-- The temporary upload of an expected file that is not an expected file itself. -/
def OwnTemporary (path : List String) (expected : List ExpectedRemoteFile) (p : List String) :
    Prop :=
  ∃ name ∈ namesOf expected, temporaryName name ∉ namesOf expected ∧
    p = temporaryName name :: path

/-- A file under a final name that has the recorded size and hash. -/
def Verified (lib : Library) (path : List String) (expected : List ExpectedRemoteFile)
    (p : List String) (entry : Option (Entry (List UInt8))) : Prop :=
  ∃ file ∈ expected, p = file.filename :: path ∧ ∃ content, entry = some (.file content) ∧
    content.length = file.size ∧ lib.sha256Hex content = file.sha256

/-- Nothing that was there has changed, or been replaced or removed on the way, but temporary
uploads; what is new is a directory or a file with the recorded size and hash. -/
structure Undamaged (lib : Library) (path : List String) (expected : List ExpectedRemoteFile)
    (before after : Site) : Prop where
  entries : ∀ p, after.get p = before.get p ∨ OwnTemporary path expected p ∨
    before.get p = none ∧
      (after.get p = some .directory ∨ Verified lib path expected p (after.get p))
  destroyed : ∀ p ∈ after.destroyed, p ∈ before.destroyed ∨ OwnTemporary path expected p

theorem Undamaged.refl : Undamaged lib path expected before before :=
  ⟨fun _ => Or.inl rfl, fun _ => Or.inl⟩

theorem Undamaged.stable : Stable (Undamaged lib path expected before) :=
  fun _ _ h => ⟨h.entries, h.destroyed⟩

theorem Undamaged.temporary (h : Undamaged lib path expected before after) {name : String}
    (hname : name ∈ namesOf expected) (htemporary : temporaryName name ∉ namesOf expected)
    (value : Option (Entry (List UInt8))) :
    Undamaged lib path expected before (after.put (temporaryName name) path value) := by
  constructor
  · intro p
    by_cases hp : p = temporaryName name :: path
    · exact Or.inr (Or.inl ⟨name, hname, htemporary, hp⟩)
    · rw [Site.get_put_of_ne hp]
      exact h.entries p
  · intro p hp
    rcases Site.mem_destroyed_put hp with hp | ⟨hp, -⟩
    · exact h.destroyed p hp
    · exact Or.inr ⟨name, hname, htemporary, hp⟩

/-- What is put where nothing is is new. -/
theorem Undamaged.create (h : Undamaged lib path expected before after) {name : String}
    {parent : List String} {value : Option (Entry (List UInt8))}
    (hnone : after.get (name :: parent) = none)
    (hvalue : value = some .directory ∨ Verified lib path expected (name :: parent) value) :
    Undamaged lib path expected before (after.put name parent value) := by
  constructor
  · intro p
    by_cases hp : p = name :: parent
    · subst hp
      rcases Site.get_put after name parent value with hput | hput
      · have hbefore := h.entries (name :: parent)
        rw [hnone] at hbefore
        rw [hput]
        rcases hbefore with hbefore | hown | ⟨-, hentry | ⟨_, _, _, _, hentry, _⟩⟩
        · exact Or.inr (Or.inr ⟨hbefore.symm, hvalue⟩)
        · exact Or.inr (Or.inl hown)
        · cases hentry
        · cases hentry
      · rw [hput]
        exact h.entries _
    · rw [Site.get_put_of_ne hp]
      exact h.entries p
  · intro p hp
    rcases Site.mem_destroyed_put hp with hp | ⟨-, content, hentry⟩
    · exact h.destroyed p hp
    · rw [hnone] at hentry
      cases hentry

theorem Undamaged.keeps {file : ExpectedRemoteFile} {content : List UInt8}
    (hfile : file ∈ expected) (hsize : content.length = file.size)
    (hhash : lib.sha256Hex content = file.sha256)
    (hseparate : ProperName (temporaryName file.filename) →
      temporaryName file.filename ∉ namesOf expected) :
    Keeps (Undamaged lib path expected before) path file.filename content := by
  have hname : file.filename ∈ namesOf expected := List.mem_map_of_mem hfile
  have htemporary : ∀ w value, Undamaged lib path expected before w →
      Undamaged lib path expected before (w.put (temporaryName file.filename) path value) := by
    intro w value hw
    by_cases hproper : ProperName (temporaryName file.filename)
    · exact hw.temporary hname (hseparate hproper) value
    · rw [Site.put_of_not_proper hproper]
      exact hw
  exact {
    stable := Undamaged.stable
    upload := fun w part hw => htemporary w _ hw
    create := fun w hw hnone => hw.create hnone
      (Or.inr ⟨file, hfile, rfl, content, rfl, hsize, hhash⟩)
    clean := fun w hw => htemporary w none hw }

theorem properName_temporaryName {name : String} (h : ProperName name) :
    ProperName (temporaryName name) := by
  have hlist := toList_temporaryName name
  have hlength : 5 ≤ (temporaryName name).toList.length := by
    rw [hlist, List.length_append]
    exact Nat.le_add_left 5 _
  have hne : ∀ other : String, other.toList.length < 5 → temporaryName name ≠ other := by
    rintro other hother rfl
    omega
  refine ⟨hne "" (by decide), hne "." (by decide), hne ".." (by decide), ?_⟩
  rw [hlist, List.mem_append, not_or]
  exact ⟨h.2.2.2, by decide⟩

/-- The names of the artifacts of a copy. -/
abbrev nameOf (lib : Library) (copy : AuditedCopy) : ConfigArtifact → String :=
  remoteFilename lib copy.target copy.revision (usesReadableFtpLayout copy.replica.remotePath)
    (readableStemFromRevisionPath lib.nfkd copy.target copy.revision copy.replica.remotePath)

/-- The files that a copy is uploaded as. -/
structure Fileset (lib : Library) (copy : AuditedCopy) (expected : List ExpectedRemoteFile)
    (manifest : List UInt8) : Prop where
  files : expected = artifactFilesOf lib copy ++
    [⟨manifestName, manifest.length, lib.sha256Hex manifest, "manifest"⟩]
  names : (copy.artifacts.map (nameOf lib copy)).Nodup
  types : (copy.artifacts.map (fun artifact => artifact.artifactType)).Nodup

variable {manifest : List UInt8} {artifact : ConfigArtifact}

/-- The file that the loop finds for an artifact is the one of its own row. -/
theorem Fileset.expectedByType_eq (h : Fileset lib copy expected manifest)
    (hmem : artifact ∈ copy.artifacts) {file : ExpectedRemoteFile}
    (hfile : expectedByType expected artifact.artifactType = some file) :
    file = expectedFile (nameOf lib copy) artifact := by
  unfold expectedByType at hfile
  have htype := List.find?_some hfile
  rw [beq_iff_eq] at htype
  have hfound := List.mem_of_find?_eq_some hfile
  rw [List.mem_reverse, h.files, List.mem_filter, List.mem_append] at hfound
  obtain ⟨hfound, hmanifest⟩ := hfound
  rcases hfound with hfound | hfound
  · obtain ⟨other, hother, rfl⟩ := List.mem_map.mp hfound
    rw [List.inj_on_of_nodup_map h.types hother hmem htype]
  · rw [List.mem_singleton.mp hfound] at hmanifest
    simp at hmanifest

theorem Fileset.mem (h : Fileset lib copy expected manifest) (hmem : artifact ∈ copy.artifacts) :
    expectedFile (nameOf lib copy) artifact ∈ expected := by
  rw [h.files]
  exact List.mem_append_left _ (List.mem_map_of_mem hmem)

/-- Where no temporary upload has an expected name, every upload of the loop is harmless. -/
theorem Fileset.keepsAll (h : Fileset lib copy expected manifest) {artifacts : List ConfigArtifact}
    (hartifacts : artifacts ⊆ copy.artifacts)
    (hseparate : ∀ name ∈ uploadedNames lib read maxArtifactSize expected artifacts,
      temporaryName name ∉ namesOf expected) :
    KeepsAll (Undamaged lib path expected before) lib path read maxArtifactSize expected manifest
      artifacts := by
  induction artifacts with
  | nil =>
    have hmem : (⟨manifestName, manifest.length, lib.sha256Hex manifest, "manifest"⟩ :
        ExpectedRemoteFile) ∈ expected := by
      rw [h.files]
      exact List.mem_append_right _ (List.mem_singleton_self _)
    exact Undamaged.keeps hmem rfl rfl fun _ => hseparate manifestName List.mem_cons_self
  | cons artifact rest ih =>
    intro content file hload hfile
    have hmem := hartifacts List.mem_cons_self
    obtain rfl := h.expectedByType_eq hmem hfile
    obtain ⟨hsize, hhash⟩ := loadArtifact_ok hload
    unfold uploadedNames at hseparate
    rw [hload, hfile] at hseparate
    dsimp only at hseparate
    refine ⟨Undamaged.keeps (h.mem hmem) hsize hhash fun hproper => ?_, fun hname => ?_⟩
    · rw [if_pos hproper] at hseparate
      exact hseparate _ List.mem_cons_self
    · rw [if_pos (properName_temporaryName hname), if_pos hname] at hseparate
      exact ih (fun other hother => hartifacts (List.mem_cons_of_mem _ hother))
        fun name hmem => hseparate name (List.mem_cons_of_mem _ hmem)

/-- The names of an accepted path are names of entries. -/
theorem properName_remoteDirectory {destination : BackupDestination} {revision : ConfigRevision}
    {deviceId : ℕ} {remotePath errorCode : String} {found : String × String}
    (h : validateRecordedRevisionPath lib.nfkd destination revision deviceId remotePath errorCode =
      .ok found) : ∀ name ∈ remoteDirectory remotePath, ProperName name := by
  unfold validateRecordedRevisionPath at h
  dsimp only at h
  split at h
  · cases h
  rename_i hvalid
  simp only [not_or, ne_eq, not_not] at hvalid
  obtain ⟨⟨-, hhead, hnormal, -⟩, -⟩ := hvalid
  have hroot : rootOf remotePath.toList ≠ [] := by
    unfold rootOf
    rw [if_pos hhead]
    split <;> simp
  intro name hname
  unfold remoteDirectory pureParts at hname
  rw [if_neg hroot, List.mem_reverse, List.drop_one, List.tail_cons, List.mem_map] at hname
  obtain ⟨part, hpart, rfl⟩ := hname
  obtain ⟨hnil, hdot, hslash⟩ := isComponent_of_mem hpart
  have hne : ∀ s : String, part ≠ s.toList → String.ofList part ≠ s := by
    rintro s hs rfl
    exact hs String.toList_ofList.symm
  refine ⟨hne "" (by simpa using hnil), hne "." hdot, hne ".." ?_, ?_⟩
  · rintro rfl
    rw [hnormal] at hpart
    exact not_mem_components_normpath hroot hpart
  · rwa [String.toList_ofList]

/-- What the checks before an upload establish. -/
theorem uploadFileset_ok {destination : BackupDestination} {recorded : AuditedCopy}
    (htypes : (recorded.artifacts.map (fun artifact => artifact.artifactType)).Nodup)
    (h : uploadFileset lib destination recorded = .ok (copy, expected, manifest)) :
    Fileset lib copy expected manifest ∧
      ∀ name ∈ remoteDirectory copy.replica.remotePath, ProperName name := by
  unfold uploadFileset at h
  split at h
  · cases h
  split at h
  · cases h
  dsimp only at h
  split at h
  · cases h
  split at h
  · cases h
  rename_i found hpath
  split at h
  · cases h
  rename_i files hfiles
  obtain ⟨rfl, rfl, rfl⟩ := Prod.mk.inj (Except.ok.inj h) |>.imp_right Prod.mk.inj
  obtain ⟨hexpected, hnames⟩ := expectedFilesOf_ok hfiles
  refine ⟨⟨hexpected, ?_, htypes⟩, properName_remoteDirectory hpath⟩
  unfold artifactFilesOf at hnames
  rwa [List.map_map] at hnames

end Damage

section Obstructions

variable {conn : Connection} {lib : Library} {residue : List UInt8 → List UInt8}
  {inv p : Site → Prop} {path : List String} {read : String → Option (List UInt8)}
  {maxArtifactSize : ℕ} {expected : List ExpectedRemoteFile} {copy : AuditedCopy}
  {name : String} {content manifest : List UInt8} {digest : String} {w : Site}

/-- An expected file has been replaced or removed. -/
def Destroyed (path : List String) (expected : List ExpectedRemoteFile) (w : Site) : Prop :=
  ∃ name ∈ namesOf expected, name :: path ∈ w.destroyed

theorem Destroyed.put (h : Destroyed path expected w) (name : String) (parent : List String)
    (value : Option (Entry (List UInt8))) : Destroyed path expected (w.put name parent value) :=
  h.imp fun _ hmem => ⟨hmem.1, Site.destroyed_put_mono hmem.2⟩

theorem Destroyed.keeps (name : String) (content : List UInt8) :
    Keeps (Destroyed path expected) path name content where
  stable := fun _ _ h => h
  upload := fun _ _ h => h.put _ _ _
  create := fun _ h _ => h.put _ _ _
  clean := fun _ h => h.put _ _ _

/-- A command that is answered. -/
theorem runs_answered {α : Type} {f : Site → Except FtpError α × Site} {post : α → Site → Prop}
    {raised : Failure → Site → Prop} (hreliable : Reliable conn) (hinv : ∀ w, p w → inv w)
    (h : ∀ w, p w → ∃ a, (f w).1 = .ok a ∧ post a (f w).2) :
    Runs inv p (command conn f) post raised := by
  refine runs_command hinv (fun n _ hfate _ => absurd (hreliable n) hfate)
    (fun n _ hfate _ => absurd (hreliable n) hfate) ?_ ?_
  · intro w a hw hok
    obtain ⟨a', hok', hpost⟩ := h w hw
    rw [hok] at hok'
    rw [Except.ok.inj hok']
    exact hpost
  · intro w e hw herror
    obtain ⟨a', hok', -⟩ := h w hw
    rw [herror] at hok'
    cases hok'

theorem runs_remoteExists_answered {raised : Failure → Site → Prop} (found : Bool)
    (hreliable : Reliable conn) (hlisting : conn.dialect.absentListing = none)
    (hinv : ∀ w, p w → inv w)
    (h : ∀ w, p w → if found then ∃ content, w.get (name :: path) = some (.file content)
      else w.get (name :: path) = none) :
    Runs inv p (remoteExists conn (name :: path)) (fun r w => r = found ∧ p w) raised := by
  have hlist : Runs inv p (nlstPath conn (name :: path))
      (fun entries w => (!entries.isEmpty) = found ∧ p w) (fun _ _ => False) := by
    refine runs_answered hreliable hinv fun w hw => ?_
    have hentry := h w hw
    dsimp only
    rw [hlisting]
    cases found with
    | true =>
      obtain ⟨content, hfile⟩ := hentry
      rw [hfile]
      exact ⟨_, rfl, rfl, hw⟩
    | false =>
      rw [if_neg Bool.false_ne_true] at hentry
      rw [hentry]
      exact ⟨_, rfl, rfl, hw⟩
  unfold remoteExists
  refine Runs.bind hlist.attempt fun reply => ?_
  rcases reply with e | entries
  · exact runs_absurd
  · exact runs_pure fun w hw => hw

theorem runs_readBack_answered {raised : Failure → Site → Prop} {maxBytes : ℕ}
    (hreliable : Reliable conn) (hinv : ∀ w, p w → inv w)
    (h : ∀ w, p w → w.get path = some (.file content)) (hlength : content.length ≤ maxBytes) :
    Runs inv p (readBack conn path maxBytes) (fun r w => r = content ∧ p w) raised := by
  have hcontent : ∀ w, p w → contentOf conn w path = .ok content := by
    intro w hw
    unfold contentOf
    rw [h w hw]
  have hsize : Runs inv p (do typeImage conn; size conn path)
      (fun r w => r = some (content.length : ℤ) ∧ p w) (fun _ _ => False) := by
    have htype : Runs inv p (typeImage conn) (fun _ w => p w) (fun _ _ => False) :=
      runs_answered hreliable hinv fun w hw => ⟨(), rfl, hw⟩
    refine Runs.bind htype fun _ => ?_
    refine runs_answered hreliable hinv fun w hw => ⟨some (content.length : ℤ), ?_, rfl, hw⟩
    dsimp only
    rw [hcontent w hw]
    rfl
  have hretr : Runs inv p (retr conn path) (fun r w => r = content ∧ p w) (fun _ _ => False) :=
    runs_answered hreliable hinv fun w hw => ⟨content, hcontent w hw, rfl, hw⟩
  unfold readBack
  refine (Runs.bind (runs_orRaise hsize) fun size => Runs.assume ?_).mono (fun _ _ hw => hw)
    fun _ _ hw => hw.elim
  rintro rfl
  dsimp only
  rw [if_neg (by push Not; exact ⟨Int.natCast_nonneg _, Int.ofNat_le.mpr hlength⟩)]
  refine Runs.bind (runs_orRaise hretr) fun r => Runs.assume ?_
  rintro rfl
  rw [if_neg (by simp)]
  exact runs_pure fun w hw => ⟨rfl, hw⟩

/-- A file that is there with its content is left as it is. -/
theorem runs_putImmutable_present {raised : Failure → Site → Prop} (hreliable : Reliable conn)
    (hlisting : conn.dialect.absentListing = none) (hinv : ∀ w, p w → inv w)
    (h : ∀ w, p w → w.get (name :: path) = some (.file content)) :
    Runs inv p (putImmutable conn lib residue path name content (lib.sha256Hex content))
      (fun _ w => p w) raised := by
  unfold putImmutable
  refine Runs.bind (runs_remoteExists_answered true hreliable hlisting hinv fun w hw =>
    ⟨content, h w hw⟩) fun found => Runs.assume ?_
  rintro rfl
  rw [if_pos rfl]
  refine Runs.bind (runs_readBack_answered hreliable hinv h le_rfl) fun existing => Runs.assume ?_
  rintro rfl
  rw [if_pos rfl]
  exact runs_pure fun w hw => hw

theorem runs_rename_destroyed {fromName toName : String}
    (hinv : ∀ w, Destroyed path expected w → inv w) :
    Runs inv (Destroyed path expected) (rename conn fromName toName path)
      (fun _ w => Destroyed path expected w) (fun _ w => Destroyed path expected w) := by
  refine runs_command_invariant hinv fun w hw => ?_
  split
  · exact hw
  · exact hw
  · exact hw
  · split
    · exact hw
    · split
      · exact hw
      · exact (hw.put _ _ _).put _ _ _

/-- A file under the temporary name of an upload is replaced. -/
theorem runs_putImmutable_replaced (hreliable : Reliable conn)
    (hlisting : conn.dialect.absentListing = none)
    (hname : temporaryName name ∈ namesOf expected) :
    Runs (fun _ => True) (fun w => w.get (name :: path) = none ∧
        ∃ part, w.get (temporaryName name :: path) = some (.file part))
      (putImmutable conn lib residue path name content digest)
      (fun _ w => Destroyed path expected w) (fun _ w => Destroyed path expected w) := by
  have htrue : ∀ w, Destroyed path expected w → (fun _ => True) w := fun _ _ => trivial
  have hstore : Runs (fun _ => True) (fun w => w.get (name :: path) = none ∧
        ∃ part, w.get (temporaryName name :: path) = some (.file part))
      (store conn residue path (temporaryName name) content)
      (fun _ w => Destroyed path expected w) (fun _ w => Destroyed path expected w) := by
    unfold store stor
    refine runs_orRaise (Runs.bind (runs_answered hreliable (fun _ _ => trivial) ?_) fun u =>
      (runs_write htrue fun w hw => hw.put _ _ _).mono (fun _ _ hw => hw.2) fun _ _ hw => hw)
    rintro w ⟨-, part, hpart⟩
    have hthere : w.get (temporaryName name :: path) ≠ none := by
      rw [hpart]
      simp
    have hparent : w.get path = some .directory :=
      w.tree.closed _ _ (Option.isSome_iff_ne_none.mpr hthere)
    refine ⟨(), ?_, temporaryName name, hname, ?_⟩
    · rw [hparent, hpart]
      dsimp only
      rw [if_pos (Site.properName hthere)]
    · rw [hparent, hpart]
      dsimp only
      rw [if_pos (Site.properName hthere)]
      exact Site.destroyed_put_self hpart
  unfold putImmutable
  refine Runs.bind (runs_remoteExists_answered false hreliable hlisting (fun _ _ => trivial)
    fun w hw => hw.1) fun found => Runs.assume ?_
  rintro rfl
  rw [if_neg Bool.false_ne_true]
  have hkeeps := @Destroyed.keeps path expected name content
  have hupload : Runs (fun _ => True) (fun w => w.get (name :: path) = none ∧
        ∃ part, w.get (temporaryName name :: path) = some (.file part))
      (uploadVerified conn lib residue path name content digest)
      (fun _ w => Destroyed path expected w) (fun _ w => Destroyed path expected w) := by
    unfold uploadVerified
    refine Runs.bind hstore fun u => ?_
    refine Runs.bind ((runs_readBack htrue _).mono (fun _ _ hw => hw.2) fun _ _ hw => hw)
      fun uploaded => ?_
    split
    · exact runs_throw fun w hw => hw
    · exact runs_orRaise (runs_rename_destroyed htrue)
  refine Runs.bind hupload.attempt fun result => ?_
  cases result with
  | ok u =>
    refine Runs.bind (runs_delete htrue hkeeps.clean).attempt fun cleaned => ?_
    cases cleaned with
    | ok v => exact runs_pure fun w hw => hw
    | error e => exact runs_pure fun w hw => hw
  | error e =>
    refine Runs.bind (runs_delete htrue hkeeps.clean).attempt fun cleaned => ?_
    cases cleaned with
    | ok v => exact runs_throw fun w hw => hw
    | error e => exact runs_throw fun w hw => hw

/-- An upload of the loop would replace an expected file, and those before it are there. -/
def Obstructed (lib : Library) (path : List String) (read : String → Option (List UInt8))
    (maxArtifactSize : ℕ) (expected : List ExpectedRemoteFile) (w : Site) :
    List ConfigArtifact → Prop
  | [] => temporaryName manifestName ∈ namesOf expected ∧ w.get (manifestName :: path) = none ∧
    ∃ part, w.get (temporaryName manifestName :: path) = some (.file part)
  | artifact :: rest => ∃ content file,
    loadArtifact lib read maxArtifactSize artifact = .ok content ∧
    expectedByType expected artifact.artifactType = some file ∧
    ((temporaryName file.filename ∈ namesOf expected ∧ w.get (file.filename :: path) = none ∧
      ∃ part, w.get (temporaryName file.filename :: path) = some (.file part)) ∨
    (w.get (file.filename :: path) = some (.file content) ∧
      Obstructed lib path read maxArtifactSize expected w rest))

theorem runs_or {α : Type} {m : Ftp α} {pre pre' : Site → Prop} {post : α → Site → Prop}
    {raised : Failure → Site → Prop} (h : Runs inv pre m post raised)
    (h' : Runs inv pre' m post raised) : Runs inv (fun w => pre w ∨ pre' w) m post raised :=
  fun c hpassed hc => hc.elim (h c hpassed) (h' c hpassed)

theorem runs_uploadArtifacts_obstructed (hreliable : Reliable conn)
    (hlisting : conn.dialect.absentListing = none) (artifacts : List ConfigArtifact)
    (transferred : ℕ) :
    Runs (fun _ => True)
      (fun w => Obstructed lib path read maxArtifactSize expected w artifacts)
      (uploadArtifacts conn lib residue path read maxArtifactSize expected artifacts transferred)
      (fun _ w => Destroyed path expected w ∨
        Obstructed lib path read maxArtifactSize expected w [])
      (fun _ w => Destroyed path expected w) := by
  have htrue : ∀ w, Destroyed path expected w → (fun _ => True) w := fun _ _ => trivial
  induction artifacts generalizing transferred with
  | nil => exact runs_pure fun w hw => Or.inr hw
  | cons artifact rest ih =>
    unfold uploadArtifacts
    cases hload : loadArtifact lib read maxArtifactSize artifact with
    | error e =>
      refine runs_absurd.weaken ?_
      rintro w ⟨content, file, hok, -⟩
      rw [hload] at hok
      cases hok
    | ok content =>
      cases hfile : expectedByType expected artifact.artifactType with
      | none =>
        refine runs_absurd.weaken ?_
        rintro w ⟨content, file, -, hsome, -⟩
        rw [hfile] at hsome
        cases hsome
      | some file =>
        dsimp only
        have hpre : ∀ w, Obstructed lib path read maxArtifactSize expected w (artifact :: rest) →
            (temporaryName file.filename ∈ namesOf expected ∧
              w.get (file.filename :: path) = none ∧
              ∃ part, w.get (temporaryName file.filename :: path) = some (.file part)) ∨
            (w.get (file.filename :: path) = some (.file content) ∧
              Obstructed lib path read maxArtifactSize expected w rest) := by
          rintro w ⟨content', file', hok, hsome, hw⟩
          rw [hload] at hok
          rw [hfile] at hsome
          obtain rfl := Except.ok.inj hok
          obtain rfl := Option.some.inj hsome
          exact hw
        refine Runs.weaken (runs_or ?_ ?_) hpre
        · -- the expected file is gone, and nothing brings it back
          refine Runs.assume fun hname => Runs.bind
            (runs_putImmutable_replaced hreliable hlisting hname) fun created => ?_
          have hkeeps : KeepsAll (Destroyed path expected) lib path read maxArtifactSize expected []
              rest := keepsAll_of_forall Destroyed.keeps rest
          exact (runs_uploadArtifacts htrue hkeeps _).mono (fun _ w hw => Or.inl hw.2)
            fun _ _ hw => hw
        · refine Runs.bind (runs_putImmutable_present hreliable hlisting (fun _ _ => trivial)
            fun w hw => hw.1) fun created => ?_
          exact (ih _).weaken fun w hw => hw.2

theorem runs_uploadManifest_obstructed (hreliable : Reliable conn)
    (hlisting : conn.dialect.absentListing = none) :
    Runs (fun _ => True) (fun w => Destroyed path expected w ∨
        Obstructed lib path read maxArtifactSize expected w [])
      (uploadManifest conn lib residue path copy expected manifest)
      (fun _ w => Destroyed path expected w) (fun _ w => Destroyed path expected w) := by
  refine runs_or (runs_uploadManifest (fun _ _ => trivial) (Destroyed.keeps _ _)) ?_
  unfold uploadManifest
  refine Runs.bind (runs_remoteExists_answered false hreliable hlisting (fun _ _ => trivial)
    fun w hw => hw.2.1) fun found => Runs.assume ?_
  rintro rfl
  rw [if_neg Bool.false_ne_true]
  refine Runs.bind (Runs.assume fun hname =>
    runs_putImmutable_replaced hreliable hlisting hname) fun created => ?_
  exact runs_pure fun w hw => hw

/-- Directories that are there are entered. -/
theorem runs_mkdirs_answered {raised : Failure → Site → Prop} (hreliable : Reliable conn)
    (hinv : ∀ w, p w → inv w) (hstable : Stable p)
    (h : ∀ w, p w → w.get path = some .directory) :
    Runs inv p (mkdirs conn path) (fun _ w => p w) raised := by
  induction path with
  | nil => exact runs_pure fun w hw => hw
  | cons name parent ih =>
    have hcwd : Runs inv p (cwd conn (name :: parent)) (fun _ w => p w) (fun _ _ => False) := by
      refine (runs_cwd hinv hstable).mono (fun _ _ hw => hw.2.2) ?_
      rintro e w ⟨e', -, hfailed, hw⟩
      exact (hfailed.reliable hreliable).1 (h w hw)
    unfold mkdirs
    refine Runs.bind (ih fun w hw => w.tree.closed name parent ?_) fun _ => ?_
    · rw [show w.tree.get (name :: parent) = some .directory from h w hw]
      rfl
    · refine Runs.bind hcwd.attempt fun reply => ?_
      rcases reply with e | u
      · exact runs_absurd
      · exact runs_pure fun w hw => hw

theorem Obstructed.congr {w' : Site} {artifacts : List ConfigArtifact}
    (h : Obstructed lib path read maxArtifactSize expected w artifacts)
    (hget : ∀ p, w'.get p = w.get p) :
    Obstructed lib path read maxArtifactSize expected w' artifacts := by
  induction artifacts with
  | nil =>
    unfold Obstructed at h ⊢
    rw [hget, hget]
    exact h
  | cons artifact rest ih =>
    obtain ⟨content, file, hload, hfile, hstep⟩ := h
    refine ⟨content, file, hload, hfile, ?_⟩
    rw [hget, hget]
    exact hstep.imp_right fun hrest => ⟨hrest.1, ih hrest.2⟩

/-- An obstructed upload destroys an expected file. -/
theorem runs_uploadFiles_obstructed (hreliable : Reliable conn)
    (hlisting : conn.dialect.absentListing = none) :
    Runs (fun _ => True) (fun w => w.get path = some .directory ∧
        Obstructed lib path read maxArtifactSize expected w copy.artifacts)
      (uploadFiles conn lib residue path read maxArtifactSize copy expected manifest)
      (fun _ w => Destroyed path expected w) (fun _ w => Destroyed path expected w) := by
  have hmkdirs : Runs (fun _ => True) (fun w => w.get path = some .directory ∧
        Obstructed lib path read maxArtifactSize expected w copy.artifacts) (mkdirs conn path)
      (fun _ w => w.get path = some .directory ∧
        Obstructed lib path read maxArtifactSize expected w copy.artifacts)
      (fun _ w => Destroyed path expected w) :=
    runs_mkdirs_answered hreliable (fun _ _ => trivial)
      (fun w other hw => ⟨hw.1, hw.2.congr fun _ => rfl⟩) fun w hw => hw.1
  unfold uploadFiles
  refine Runs.bind (runs_orRaise hmkdirs) fun _ => ?_
  refine Runs.bind (runs_orRaise ((runs_uploadArtifacts_obstructed hreliable hlisting
    copy.artifacts 0).weaken fun w hw => hw.2)) fun transferred => ?_
  refine Runs.bind (runs_orRaise (runs_uploadManifest_obstructed hreliable hlisting))
    fun bytes => ?_
  exact runs_pure fun w hw => hw

/-- A further file is in nobody's way. -/
theorem Obstructed.put (hset : Fileset lib copy expected manifest)
    (hadmits : w.tree.Admits name path (some (.file content))) (hproper : ProperName name)
    (hname : temporaryName name ∉ namesOf expected) {artifacts : List ConfigArtifact}
    (hartifacts : artifacts ⊆ copy.artifacts)
    (hother : name ∉ artifacts.map (nameOf lib copy))
    (h : Obstructed lib path read maxArtifactSize expected w artifacts) :
    Obstructed lib path read maxArtifactSize expected (w.put name path (some (.file content)))
      artifacts := by
  have hobstructing : ∀ other, temporaryName other ∈ namesOf expected →
      w.get (other :: path) = none →
      (∃ part, w.get (temporaryName other :: path) = some (.file part)) →
      (w.put name path (some (.file content))).get (other :: path) = none ∧
        ∃ part, (w.put name path (some (.file content))).get (temporaryName other :: path) =
          some (.file part) := by
    intro other hclash hnone hpart
    have hne : other ≠ name := by
      rintro rfl
      exact hname hclash
    refine ⟨by rwa [Site.get_put_of_ne (cons_ne_cons hne)], ?_⟩
    by_cases htemporary : temporaryName other = name
    · subst htemporary
      exact ⟨content, Site.get_put_self hproper hadmits⟩
    · rwa [Site.get_put_of_ne (cons_ne_cons htemporary)]
  induction artifacts with
  | nil =>
    obtain ⟨hclash, hnone, hpart⟩ := h
    exact ⟨hclash, hobstructing manifestName hclash hnone hpart⟩
  | cons artifact rest ih =>
    obtain ⟨other, file, hload, hfile, hstep⟩ := h
    rw [List.map_cons, List.mem_cons, not_or] at hother
    refine ⟨other, file, hload, hfile, ?_⟩
    rcases hstep with ⟨hclash, hnone, hpart⟩ | ⟨hpresent, hrest⟩
    · exact Or.inl ⟨hclash, hobstructing _ hclash hnone hpart⟩
    · have hmem := hartifacts List.mem_cons_self
      have hne : file.filename ≠ name := by
        rw [hset.expectedByType_eq hmem hfile]
        exact fun heq => hother.1 heq.symm
      refine Or.inr ⟨by rwa [Site.get_put_of_ne (cons_ne_cons hne)], ?_⟩
      exact ih (fun a ha => hartifacts (List.mem_cons_of_mem _ ha)) hother.2 hrest

/-- A directory that obstructs an upload has no directories in it. -/
structure Obstructing (lib : Library) (path : List String) (read : String → Option (List UInt8))
    (maxArtifactSize : ℕ) (expected : List ExpectedRemoteFile)
    (artifacts : List ConfigArtifact) (w : Site) : Prop where
  directory : w.get path = some .directory
  files : ∀ name, w.get (name :: path) ≠ some .directory
  destroyed : w.destroyed = []
  obstructed : Obstructed lib path read maxArtifactSize expected w artifacts

/-- A directory with one file. -/
theorem exists_single (hpath : ∀ name ∈ path, ProperName name) (hname : ProperName name) :
    ∃ w : Site, w.get path = some .directory ∧ w.destroyed = [] ∧
      w.get (name :: path) = some (.file []) ∧
      ∀ other, other ≠ name → w.get (other :: path) = none := by
  obtain ⟨hdirectory, habsent⟩ := get_siteWith hpath
  have hlonger : ∀ other : String, (siteWith path).get (other :: path) = none :=
    fun other => habsent _ (Nat.lt_succ_self _)
  have hadmits : (siteWith path).tree.Admits name path (some (.file [])) :=
    FileTree.Admits.leaf hdirectory (by
      rw [show (siteWith path).tree.get (name :: path) = none from hlonger name]
      simp)
  refine ⟨{ (siteWith path).put name path (some (.file [])) with destroyed := [] }, ?_, rfl,
    Site.get_put_self hname hadmits, ?_⟩
  · exact (Site.get_put_of_ne (List.cons_ne_self name path).symm).trans hdirectory
  · exact fun other hother => (Site.get_put_of_ne (cons_ne_cons hother)).trans (hlonger other)

/-- Where a temporary upload has an expected name, a directory can obstruct it. -/
theorem exists_obstructing (hset : Fileset lib copy expected manifest)
    (hpath : ∀ name ∈ path, ProperName name) {artifacts : List ConfigArtifact}
    (hartifacts : artifacts.Sublist copy.artifacts)
    (hclash : ∃ name ∈ uploadedNames lib read maxArtifactSize expected artifacts,
      temporaryName name ∈ namesOf expected) :
    ∃ w, Obstructing lib path read maxArtifactSize expected artifacts w := by
  have hsingle : ∀ name, ProperName (temporaryName name) → ∃ w : Site,
      w.get path = some .directory ∧ (∀ other, w.get (other :: path) ≠ some .directory) ∧
        w.destroyed = [] ∧ w.get (name :: path) = none ∧
        ∃ part, w.get (temporaryName name :: path) = some (.file part) := by
    intro name hproper
    obtain ⟨w, hdirectory, hdestroyed, hfile, hothers⟩ := exists_single hpath hproper
    refine ⟨w, hdirectory, fun other => ?_, hdestroyed, hothers name (ne_temporaryName name), [],
      hfile⟩
    by_cases hother : other = temporaryName name
    · rw [hother, hfile]
      simp
    · rw [hothers other hother]
      simp
  induction artifacts with
  | nil =>
    obtain ⟨name, hname, hclash⟩ := hclash
    obtain rfl := List.mem_singleton.mp hname
    obtain ⟨w, hdirectory, hfiles, hdestroyed, hnone, hpart⟩ := hsingle manifestName (by decide)
    exact ⟨w, hdirectory, hfiles, hdestroyed, hclash, hnone, hpart⟩
  | cons artifact rest ih =>
    obtain ⟨name, hname, hclash⟩ := hclash
    unfold uploadedNames at hname
    split at hname
    · rename_i content file hload hfile
      split at hname
      · rename_i hproper
        by_cases hhead : temporaryName file.filename ∈ namesOf expected
        · obtain ⟨w, hdirectory, hfiles, hdestroyed, hnone, hpart⟩ := hsingle _ hproper
          exact ⟨w, hdirectory, hfiles, hdestroyed, content, file, hload, hfile,
            Or.inl ⟨hhead, hnone, hpart⟩⟩
        · rcases List.mem_cons.mp hname with rfl | hname
          · exact absurd hclash hhead
          · split at hname
            · rename_i hentry
              have hrest := (List.sublist_cons_self artifact rest).trans hartifacts
              have hmem := hartifacts.subset List.mem_cons_self
              obtain ⟨w, hw⟩ := ih hrest ⟨name, hname, hclash⟩
              have hadmits : w.tree.Admits file.filename path (some (.file content)) :=
                FileTree.Admits.leaf hw.directory (hw.files _)
              have hself := Site.get_put_self hentry hadmits
              have hnodup := hset.names.sublist (hartifacts.map (nameOf lib copy))
              rw [List.map_cons, List.nodup_cons] at hnodup
              have hother : file.filename ∉ rest.map (nameOf lib copy) := by
                rw [hset.expectedByType_eq hmem hfile]
                exact hnodup.1
              refine ⟨{ w.put file.filename path (some (.file content)) with destroyed := [] },
                ?_, fun other => ?_, rfl, content, file, hload, hfile, Or.inr ⟨hself, ?_⟩⟩
              · exact (Site.get_put_of_ne (List.cons_ne_self _ path).symm).trans hw.directory
              · change (w.put file.filename path _).get (other :: path) ≠ some .directory
                by_cases heq : other = file.filename
                · rw [heq, hself]
                  simp
                · rw [Site.get_put_of_ne (cons_ne_cons heq)]
                  exact hw.files other
              · exact (hw.obstructed.put hset hadmits hentry hhead hrest.subset hother).congr
                  fun _ => rfl
            · exact absurd hname List.not_mem_nil
      · exact absurd hname List.not_mem_nil
    · exact absurd hname List.not_mem_nil

end Obstructions

section Uploading

variable {lib : Library} {read : String → Option (List UInt8)} {destination : BackupDestination}
  {recorded copy : AuditedCopy} {expected : List ExpectedRemoteFile} {manifest : List UInt8}

/-- Whatever happens to the commands of an upload, and at every moment of it, it has damaged
no file of the server; an upload whose checks fail has changed nothing. -/
def Harmless (lib : Library) (read : String → Option (List UInt8))
    (destination : BackupDestination) (recorded : AuditedCopy) : Prop :=
  ∀ (conn : Connection) (residue : List UInt8 → List UInt8) (before after : Site),
    Moment (replicateRevisionFtp conn lib residue read destination recorded) before after →
      match uploadFileset lib destination recorded with
      | .error _ => after = before
      | .ok (copy, expected, _) =>
        Undamaged lib (remoteDirectory copy.replica.remotePath) expected before after

/-- No file that is uploaded has an expected file as its temporary one. -/
def SeparateUploads (lib : Library) (read : String → Option (List UInt8))
    (destination : BackupDestination) (recorded : AuditedCopy) : Prop :=
  ∀ copy expected manifest, uploadFileset lib destination recorded = .ok (copy, expected, manifest) →
    ∀ name ∈ uploadedNames lib read destination.maxArtifactSize expected copy.artifacts,
      temporaryName name ∉ namesOf expected

theorem harmless_of_separate
    (htypes : (recorded.artifacts.map (fun artifact => artifact.artifactType)).Nodup)
    (h : SeparateUploads lib read destination recorded) :
    Harmless lib read destination recorded := by
  intro conn residue before after hmoment
  unfold replicateRevisionFtp at hmoment
  cases hset : uploadFileset lib destination recorded with
  | error e =>
    rw [hset] at hmoment
    exact (Runs.moment (@runs_throw Site Failure ReplicationResult (· = before) (· = before)
      (fun _ _ => False) (fun _ => (· = before)) e fun _ hw => hw) rfl nofun (fun _ _ hw => hw)
      hmoment)
  | ok fileset =>
    obtain ⟨copy, expected, manifest⟩ := fileset
    rw [hset] at hmoment
    have hfiles := (uploadFileset_ok htypes hset).1
    have hkeeps := @Fileset.keepsAll lib (remoteDirectory copy.replica.remotePath) expected before
      read destination.maxArtifactSize copy manifest hfiles copy.artifacts
      (List.Subset.refl _) (h copy expected manifest hset)
    exact (runs_uploadFiles (fun _ hw => hw) Undamaged.stable
      (fun _ _ _ hw hnone => hw.create hnone (Or.inl rfl)) hkeeps).moment Undamaged.refl
      (fun _ _ hw => hw) (fun _ _ hw => hw) hmoment

/-- A server that lists nothing for an absent path, and whose renames replace nothing. -/
def plainDialect : Dialect where
  absent := ⟨.perm, "550 No such file or directory."⟩
  refused := ⟨.perm, "550 Permission denied."⟩
  emptyListing := none
  absentListing := none
  overwrites := false

/-- An expected file that is a temporary one of another is lost from a directory in which it
lies. -/
theorem separate_of_harmless
    (htypes : (recorded.artifacts.map (fun artifact => artifact.artifactType)).Nodup)
    (h : Harmless lib read destination recorded) : SeparateUploads lib read destination recorded := by
  intro copy expected manifest hset name hname hclash
  obtain ⟨hfiles, hpath⟩ := uploadFileset_ok htypes hset
  obtain ⟨before, hbefore⟩ := exists_obstructing hfiles hpath (List.Sublist.refl _)
    ⟨name, hname, hclash⟩
  have hrun := @runs_uploadFiles_obstructed (answering plainDialect) lib id
    (remoteDirectory copy.replica.remotePath) read destination.maxArtifactSize expected copy
    manifest (reliable_answering _) rfl
  have hlast : ∃ after, Moment (replicateRevisionFtp (answering plainDialect) lib id read destination
      recorded) before after ∧
        Destroyed (remoteDirectory copy.replica.remotePath) expected after := by
    have hresult := hrun ⟨before, []⟩ nofun ⟨hbefore.directory, hbefore.obstructed⟩
    unfold Moment replicateRevisionFtp
    rw [hset]
    dsimp only
    split at hresult
    · exact ⟨_, Or.inr rfl, hresult.2⟩
    · exact ⟨_, Or.inr rfl, hresult.2⟩
  obtain ⟨after, hmoment, other, hother, hlost⟩ := hlast
  have hundamaged := h (answering plainDialect) id before after hmoment
  rw [hset] at hundamaged
  rcases hundamaged.destroyed _ hlost with hmem | ⟨own, -, htemporary, heq⟩
  · rw [hbefore.destroyed] at hmem
    exact List.not_mem_nil hmem
  · rw [(List.cons.inj heq).1] at hother
    exact htemporary hother

/-- A revision without a copy yet. -/
def uploadOf (artifacts : List ConfigArtifact) : AuditedCopy :=
  { exampleAuditedCopy with
    artifacts := artifacts
    replica := { exampleAuditedCopy.replica with remotePath := "" } }

theorem separateUploads_iff : SeparateUploads lib read destination recorded ↔
    ((uploadFileset lib destination recorded).toOption.all fun fileset =>
      (uploadedNames lib read destination.maxArtifactSize fileset.2.1 fileset.1.artifacts).all
        fun name => decide (temporaryName name ∉ namesOf fileset.2.1)) = true := by
  unfold SeparateUploads
  generalize uploadFileset lib destination recorded = result
  cases result with
  | error e =>
    refine iff_of_true (fun copy expected manifest h => ?_) rfl
    cases h
  | ok fileset =>
    obtain ⟨copy, expected, manifest⟩ := fileset
    simp only [Except.toOption, Option.all_some, List.all_eq_true, decide_eq_true_eq]
    constructor
    · exact fun h => h copy expected manifest rfl
    · intro h copy' expected' manifest' heq
      cases heq
      exact h

end Uploading

end ConfigBackup.FtpUpload
