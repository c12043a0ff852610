import ConfigBackup.RevisionFiles

/-!
The integrity audit of a destination, over FTP and over a mounted directory. Both walk over
the expected files of every available copy and count what is missing, of another size or
altered; they differ in how a file is inspected.
-/

namespace ConfigBackup.IntegrityAudit

open Models NewestCopies PosixPaths RecordedPaths RemoteFileNames Replication RevisionFiles Text

inductive FtpErrorKind
  | perm | temp | other
deriving DecidableEq, Repr

/-- An exception of the FTP client with its text. -/
structure FtpError where
  kind : FtpErrorKind
  message : String
deriving DecidableEq, Repr

/-- `str(exc).lstrip().startswith("550")`. -/
def FtpError.is550 (e : FtpError) : Bool :=
  "550".toList.isPrefixOf (lstrip isSpace e.message.toList)

/-- The commands that read a file of a directory: a download comes in chunks, after which it
completes or fails. -/
structure FtpReader where
  typeImage : Except FtpError Unit
  size : String → String → Except FtpError (Option ℤ)
  retrbinary : String → String → List (List UInt8) × Option FtpError

/-- What is found at a name in a mounted directory; the last cannot be inspected. -/
inductive MountedEntry
  | absent
  | regular (content : List UInt8)
  | failing
deriving DecidableEq, Repr

inductive FileState
  | ok | missing | sizeMismatch | hashMismatch | unreadable
deriving DecidableEq, Repr

/-- A copy with the rows that its audit loads. -/
structure AuditedCopy where
  replica : RevisionReplica
  revision : ConfigRevision
  target : BackupTarget
  artifacts : List ConfigArtifact
deriving DecidableEq, Repr

def maxManifestBytes : ℕ := 1024 * 1024

section Files

variable (lib : Library)

/-- `_read_remote`: every failure of the client becomes a destination error. -/
def readRemote (reader : FtpReader) (directory filename : String) (maxBytes : ℕ) :
    Except DestinationError (List UInt8) :=
  match reader.typeImage, reader.size directory filename with
  | .error _, _ | _, .error _ =>
    .error ⟨"DESTINATION_VERIFY_FAILED", "The uploaded FTP object could not be inspected."⟩
  | .ok _, .ok none =>
    .error ⟨"DESTINATION_VERIFY_FAILED", "The uploaded FTP object has an invalid size."⟩
  | .ok _, .ok (some size) =>
    if size < 0 ∨ maxBytes < size then
      .error ⟨"DESTINATION_VERIFY_FAILED", "The uploaded FTP object has an invalid size."⟩
    else
      match reader.retrbinary directory filename with
      | (_, some _) =>
        .error ⟨"DESTINATION_VERIFY_FAILED",
          "The uploaded FTP object could not be read back for verification."⟩
      | (chunks, none) =>
        if chunks.flatten.length ≠ size then
          .error ⟨"DESTINATION_VERIFY_FAILED", "The uploaded FTP object is incomplete."⟩
        else .ok chunks.flatten

/-- `_verify_remote_manifest`. -/
def verifyRemoteManifest (reader : FtpReader) (copy : AuditedCopy)
    (expectedFiles : List ExpectedRemoteFile) (expected : ExpectedRemoteFile) : FileState × ℕ :=
  match readRemote reader copy.replica.remotePath expected.filename maxManifestBytes with
  | .error _ => (.unreadable, 0)
  | .ok content =>
    if manifestMatchesRevision lib content copy.target copy.revision copy.artifacts
        copy.replica.remotePath expectedFiles then (.ok, content.length)
    else (.hashMismatch, content.length)

/-- The states that `_verify_remote_file` gives a failed command; other errors leave it. -/
def stateOfError (e : FtpError) : Except FtpError (FileState × ℕ) :=
  match e.kind with
  | .perm => .ok (if e.is550 then .missing else .unreadable, 0)
  | .temp => .ok (.unreadable, 0)
  | .other => .error e

/-- `_verify_remote_file`. -/
def verifyRemoteFile (reader : FtpReader) (copy : AuditedCopy)
    (expectedFiles : List ExpectedRemoteFile) (expected : ExpectedRemoteFile) :
    Except FtpError (FileState × ℕ) :=
  if expected.artifactType = "manifest" then
    .ok (verifyRemoteManifest lib reader copy expectedFiles expected)
  else
    match reader.typeImage with
    | .error e => .error e
    | .ok _ =>
      match reader.size copy.replica.remotePath expected.filename with
      | .error e => stateOfError e
      | .ok none => .ok (.unreadable, 0)
      | .ok (some size) =>
        if size < 0 then .ok (.unreadable, 0)
        else if size ≠ expected.size then .ok (.sizeMismatch, size.toNat)
        else
          match reader.retrbinary copy.replica.remotePath expected.filename with
          | (_, some e) => stateOfError e
          | (chunks, none) =>
            if chunks.flatten.length ≠ size then .ok (.sizeMismatch, chunks.flatten.length)
            else if lib.sha256Hex chunks.flatten ≠ expected.sha256 then
              .ok (.hashMismatch, chunks.flatten.length)
            else .ok (.ok, chunks.flatten.length)

/-- `_verify_file` of a mounted directory. -/
def verifyFile (entry : MountedEntry) (expected : ExpectedRemoteFile) : FileState × ℕ :=
  match entry with
  | .absent => (.missing, 0)
  | .failing => (.unreadable, 0)
  | .regular content =>
    if content.length ≠ expected.size then (.sizeMismatch, content.length)
    else if lib.sha256Hex content ≠ expected.sha256 then (.hashMismatch, content.length)
    else (.ok, content.length)

def verifyManifestFile (entry : MountedEntry) (copy : AuditedCopy)
    (expectedFiles : List ExpectedRemoteFile) : FileState × ℕ :=
  match entry with
  | .absent => (.missing, 0)
  | .failing => (.unreadable, 0)
  | .regular content =>
    if maxManifestBytes < content.length then (.sizeMismatch, content.length)
    else if manifestMatchesRevision lib content copy.target copy.revision copy.artifacts
        copy.replica.remotePath expectedFiles then (.ok, content.length)
    else (.hashMismatch, content.length)

end Files

section Summaries

structure Issue where
  replicaId : ℕ
  revisionId : ℕ
  revisionUuid : String
  device : Option String
  filename : String
  artifactType : String
  problem : FileState
deriving DecidableEq, Repr

structure Summary where
  success : Bool
  safeMessage : String
  checkedReplicas : ℕ
  healthyReplicas : ℕ
  failedReplicas : ℕ
  skippedReplicas : ℕ
  checkedFiles : ℕ
  verifiedBytes : ℕ
  missingFiles : ℕ
  sizeMismatches : ℕ
  hashMismatches : ℕ
  unreadableFiles : ℕ
  issues : List Issue
  issuesTruncated : Bool
  protocol : DestinationProtocol
deriving DecidableEq, Repr

def initialSummary (safeMessage : String) (protocol : DestinationProtocol) (skipped : ℕ) :
    Summary where
  success := true
  safeMessage := safeMessage
  checkedReplicas := 0
  healthyReplicas := 0
  failedReplicas := 0
  skippedReplicas := skipped
  checkedFiles := 0
  verifiedBytes := 0
  missingFiles := 0
  sizeMismatches := 0
  hashMismatches := 0
  unreadableFiles := 0
  issues := []
  issuesTruncated := false
  protocol := protocol

def issueOf (copy : AuditedCopy) (expected : ExpectedRemoteFile) (state : FileState) : Issue where
  replicaId := copy.replica.pk
  revisionId := copy.revision.pk
  revisionUuid := copy.revision.revisionUuid
  device := copy.target.deviceName
  filename := expected.filename
  artifactType := expected.artifactType
  problem := state

/-- One pass of the loop over the files of a copy. -/
def recordFile (issueLimit : ℕ) (state : FileState) (actualSize : ℕ) (issue : Issue)
    (summary : Summary) : Summary :=
  let summary := { summary with checkedFiles := summary.checkedFiles + 1 }
  if state = .ok then { summary with verifiedBytes := summary.verifiedBytes + actualSize }
  else
    { summary with
      missingFiles := summary.missingFiles + if state = .missing then 1 else 0
      sizeMismatches := summary.sizeMismatches + if state = .sizeMismatch then 1 else 0
      hashMismatches := summary.hashMismatches + if state = .hashMismatch then 1 else 0
      unreadableFiles := summary.unreadableFiles + if state = .unreadable then 1 else 0
      issues := if summary.issues.length < issueLimit then
          summary.issues ++ [issue] else summary.issues
      issuesTruncated := summary.issuesTruncated || !decide (summary.issues.length < issueLimit) }

/-- The end of the loop over the files of a copy. -/
def recordCopy (failed : Bool) (summary : Summary) : Summary :=
  if failed then { summary with failedReplicas := summary.failedReplicas + 1 }
  else { summary with healthyReplicas := summary.healthyReplicas + 1 }

def Summary.issueCount (summary : Summary) : ℕ :=
  summary.missingFiles + summary.sizeMismatches + summary.hashMismatches + summary.unreadableFiles

/-- The end of both audits, with their own texts. -/
def closeSummary (found : ℕ → ℕ → String) (nothing : String) (summary : Summary) : Summary :=
  if summary.issueCount ≠ 0 then
    { summary with
      success := false
      safeMessage := found summary.issueCount summary.failedReplicas }
  else if summary.checkedReplicas = 0 then { summary with safeMessage := nothing }
  else summary

end Summaries

section Audits

variable (lib : Library)

/-- Copies that have been uploaded and not deleted. -/
def auditable (destination : BackupDestination) (copy : AuditedCopy) : Bool :=
  copy.replica.destination == destination.pk && copy.replica.status == .success &&
    copy.replica.remoteAvailable && copy.replica.remoteDeletedAt.isNone

/-- The expected files of a copy under its recorded path. -/
def expectedFilesOf (copy : AuditedCopy) (manifestDeviceDirectory : Option String) :
    Except DestinationError (List ExpectedRemoteFile) :=
  expectedRevisionFiles lib copy.target copy.revision copy.artifacts
    (usesReadableFtpLayout copy.replica.remotePath)
    (readableStemFromRevisionPath lib.nfkd copy.target copy.revision copy.replica.remotePath)
    manifestDeviceDirectory

/-- The loop over the files of a copy: the summary, and whether one of them failed. -/
def auditFiles {ε : Type} (verify : ExpectedRemoteFile → Except ε (FileState × ℕ))
    (issueLimit : ℕ) (copy : AuditedCopy) :
    List ExpectedRemoteFile → Summary × Bool → Except ε (Summary × Bool)
  | [], result => .ok result
  | expected :: rest, (summary, failed) => do
    let (state, actualSize) ← verify expected
    auditFiles verify issueLimit copy rest
      (recordFile issueLimit state actualSize (issueOf copy expected state) summary,
        failed || decide (state ≠ .ok))

/-- The loop of the FTP audit; an error of the client ends it. -/
def auditFtpCopies (reader : FtpReader) (destination : BackupDestination) (issueLimit : ℕ) :
    List AuditedCopy → Summary → Except DestinationError Summary
  | [], summary => .ok summary
  | copy :: rest, summary => do
    let _ ← validateRecordedRevisionPath lib.nfkd destination copy.revision copy.target.deviceId
      copy.replica.remotePath "RECONCILIATION_PATH_INVALID"
    let expectedFiles ← expectedFilesOf lib copy none
    let summary := { summary with checkedReplicas := summary.checkedReplicas + 1 }
    match auditFiles (verifyRemoteFile lib reader copy expectedFiles) issueLimit copy expectedFiles
        (summary, false) with
    | .error _ =>
      .error ⟨"DESTINATION_RECONCILIATION_FAILED", "The FTP integrity audit could not complete."⟩
    | .ok (summary, failed) =>
      auditFtpCopies reader destination issueLimit rest (recordCopy failed summary)

/-- `reconcile_ftp_destination`, with the copies given or all of the destination. -/
def reconcileFtpDestination (connect : Except DestinationError FtpReader)
    (destination : BackupDestination) (explicitReplicas : Bool) (copies : List AuditedCopy)
    (issueLimit : ℕ) : Except DestinationError Summary :=
  let supplied := copies.filter (auditable destination)
  let summary := initialSummary "All expected FTP revision copies passed integrity verification."
    .ftp (copies.length - supplied.length)
  if explicitReplicas && supplied.isEmpty then
    .ok { summary with
      safeMessage := "There are no available FTP revision copies to audit." }
  else do
    let reader ← connect
    let summary ← auditFtpCopies lib reader destination issueLimit supplied summary
    pure (closeSummary (fun problems failed => "The FTP audit found " ++ toString problems ++
        " problem(s) in " ++ toString failed ++ " revision copy/copies.")
      "There are no successful FTP revision copies to audit yet." summary)

/-- The loop of the mounted audit. -/
def auditMountedCopies (mount : String → String → MountedEntry) (destination : BackupDestination)
    (issueLimit : ℕ) : List AuditedCopy → Summary → Except DestinationError Summary
  | [], summary => .ok summary
  | copy :: rest, summary => do
    let (_, deviceDirectory) ← validateRecordedRevisionPath lib.nfkd destination copy.revision
      copy.target.deviceId copy.replica.remotePath "RECONCILIATION_PATH_INVALID"
    let expectedFiles ← expectedFilesOf lib copy (some deviceDirectory)
    let summary := { summary with checkedReplicas := summary.checkedReplicas + 1 }
    let (summary, failed) ← auditFiles (fun expected =>
        let entry := mount copy.replica.remotePath expected.filename
        .ok (if expected.artifactType = "manifest" then
            verifyManifestFile lib entry copy expectedFiles
          else verifyFile lib entry expected)) issueLimit copy expectedFiles (summary, false)
    auditMountedCopies mount destination issueLimit rest (recordCopy failed summary)

/-- `reconcile_mounted_destination`; the mount is found below its allowed root or not. -/
def reconcileMountedDestination (root : Except DestinationError (String → String → MountedEntry))
    (destination : BackupDestination) (copies : List AuditedCopy) (issueLimit : ℕ) :
    Except DestinationError Summary :=
  if !destination.protocol.mounted then
    .error ⟨"PROTOCOL_UNSUPPORTED",
      "This operation requires an NFS or SMB3 mounted storage profile."⟩
  else do
    let supplied := copies.filter (auditable destination)
    let summary := initialSummary
      "All expected mounted-storage copies passed integrity verification."
      destination.protocol (copies.length - supplied.length)
    let mount ← root
    let summary ← auditMountedCopies lib mount destination issueLimit supplied summary
    pure (closeSummary (fun problems failed => "The integrity audit found " ++
        toString problems ++ " problem(s) in " ++ toString failed ++ " revision copy/copies.")
      "There are no successful revision copies to audit yet." summary)

end Audits

section Tally

/-- What the inspection of one file gave, and the issue that it would be. -/
structure Outcome where
  state : FileState
  actualSize : ℕ
  issue : Issue

/-- The summary of the files of a copy. -/
def tallyFiles (issueLimit : ℕ) (outcomes : List Outcome) (summary : Summary) : Summary :=
  outcomes.foldl (fun summary outcome =>
    recordFile issueLimit outcome.state outcome.actualSize outcome.issue summary) summary

/-- Whether a file of a copy failed. -/
def anyFailed (outcomes : List Outcome) : Bool := outcomes.any (fun o => decide (o.state ≠ .ok))

/-- The summary of the copies, given by the outcomes of their files. -/
def tally (issueLimit : ℕ) (copies : List (List Outcome)) (summary : Summary) : Summary :=
  copies.foldl (fun summary outcomes => recordCopy (anyFailed outcomes)
    (tallyFiles issueLimit outcomes
      { summary with checkedReplicas := summary.checkedReplicas + 1 })) summary

variable {ε : Type} {issueLimit : ℕ} {copy : AuditedCopy}

theorem auditFiles_eq {verify : ExpectedRemoteFile → Except ε (FileState × ℕ)}
    {found : ExpectedRemoteFile → FileState × ℕ} {files : List ExpectedRemoteFile}
    (hverify : ∀ expected ∈ files, verify expected = .ok (found expected)) (summary : Summary)
    (failed : Bool) :
    auditFiles verify issueLimit copy files (summary, failed) =
      .ok (tallyFiles issueLimit (files.map (fun expected => ⟨(found expected).1,
          (found expected).2, issueOf copy expected (found expected).1⟩)) summary,
        failed || anyFailed (files.map (fun expected => ⟨(found expected).1,
          (found expected).2, issueOf copy expected (found expected).1⟩))) := by
  induction files generalizing summary failed with
  | nil => simp [auditFiles, tallyFiles, anyFailed]
  | cons expected files ih =>
    rw [auditFiles, hverify expected List.mem_cons_self]
    change auditFiles verify issueLimit copy files _ = _
    rw [ih fun other hother => hverify other (List.mem_cons_of_mem _ hother)]
    simp [tallyFiles, anyFailed, Bool.or_assoc]

/-- The problems among the outcomes, in order. -/
def problemsOf (outcomes : List Outcome) : List Issue :=
  (outcomes.filter (fun o => decide (o.state ≠ .ok))).map (fun o => o.issue)

/-- How many files have a state. -/
def countOf (state : FileState) (outcomes : List Outcome) : ℕ :=
  outcomes.countP (fun o => decide (o.state = state))

def bytesOf (outcomes : List Outcome) : ℕ :=
  ((outcomes.filter (fun o => decide (o.state = .ok))).map (fun o => o.actualSize)).sum

/-- A summary to which the outcomes of some files have been added. -/
def withOutcomes (issueLimit : ℕ) (outcomes : List Outcome) (summary : Summary) : Summary :=
  { summary with
    checkedFiles := summary.checkedFiles + outcomes.length
    verifiedBytes := summary.verifiedBytes + bytesOf outcomes
    missingFiles := summary.missingFiles + countOf .missing outcomes
    sizeMismatches := summary.sizeMismatches + countOf .sizeMismatch outcomes
    hashMismatches := summary.hashMismatches + countOf .hashMismatch outcomes
    unreadableFiles := summary.unreadableFiles + countOf .unreadable outcomes
    issues := summary.issues ++ (problemsOf outcomes).take (issueLimit - summary.issues.length)
    issuesTruncated := summary.issuesTruncated ||
      decide (issueLimit < summary.issues.length + (problemsOf outcomes).length) }

theorem withOutcomes_nil {summary : Summary} (h : summary.issues.length ≤ issueLimit) :
    withOutcomes issueLimit [] summary = summary := by
  unfold withOutcomes bytesOf countOf problemsOf
  have hlimit : ¬ issueLimit < summary.issues.length := by omega
  simp [hlimit]

theorem length_issues_recordFile {summary : Summary} (h : summary.issues.length ≤ issueLimit)
    (state : FileState) (actualSize : ℕ) (issue : Issue) :
    (recordFile issueLimit state actualSize issue summary).issues.length ≤ issueLimit := by
  unfold recordFile
  dsimp only
  split
  · exact h
  · dsimp only
    split
    · simp only [List.length_append, List.length_singleton]
      omega
    · exact h

theorem withOutcomes_cons {summary : Summary} (h : summary.issues.length ≤ issueLimit)
    (outcome : Outcome) (outcomes : List Outcome) :
    withOutcomes issueLimit (outcome :: outcomes) summary =
      withOutcomes issueLimit outcomes (recordFile issueLimit outcome.state outcome.actualSize
        outcome.issue summary) := by
  obtain ⟨state, actualSize, issue⟩ := outcome
  by_cases hok : state = .ok
  · subst hok
    simp only [withOutcomes, recordFile, bytesOf, countOf, problemsOf]
    simp
    omega
  · have hproblems : problemsOf (⟨state, actualSize, issue⟩ :: outcomes) =
        issue :: problemsOf outcomes := by
      simp [problemsOf, hok]
    unfold withOutcomes recordFile
    simp only [if_neg hok, hproblems]
    have hcounts : ∀ target : FileState, countOf target (⟨state, actualSize, issue⟩ :: outcomes) =
        (if state = target then 1 else 0) + countOf target outcomes := by
      intro target
      unfold countOf
      rw [List.countP_cons]
      simp [Nat.add_comm]
    have hbytes : bytesOf (⟨state, actualSize, issue⟩ :: outcomes) = bytesOf outcomes := by
      simp [bytesOf, hok]
    simp only [hcounts, hbytes, List.length_cons, Summary.mk.injEq, true_and, and_true]
    refine ⟨by omega, by omega, by omega, by omega, by omega, ?_, ?_⟩
    · by_cases hroom : summary.issues.length < issueLimit
      · simp only [if_pos hroom, List.length_append, List.length_singleton, List.append_assoc,
          List.singleton_append]
        rw [show issueLimit - summary.issues.length =
          (issueLimit - (summary.issues.length + 1)) + 1 by omega, List.take_succ_cons]
      · simp only [if_neg hroom]
        rw [show issueLimit - summary.issues.length = 0 by omega]
        simp
    · by_cases hroom : summary.issues.length < issueLimit
      · have hlength : summary.issues.length + ((problemsOf outcomes).length + 1) =
            summary.issues.length + 1 + (problemsOf outcomes).length := by omega
        simp [hroom, hlength]
      · have hmore : issueLimit < summary.issues.length + ((problemsOf outcomes).length + 1) := by
          omega
        simp [hroom, hmore]

/-- The counters of a summary after the files of a copy. -/
theorem tallyFiles_eq {summary : Summary} (h : summary.issues.length ≤ issueLimit)
    (outcomes : List Outcome) :
    tallyFiles issueLimit outcomes summary = withOutcomes issueLimit outcomes summary := by
  induction outcomes generalizing summary with
  | nil => exact (withOutcomes_nil h).symm
  | cons outcome outcomes ih =>
    rw [withOutcomes_cons h]
    exact ih (length_issues_recordFile h _ _ _)

theorem length_issues_withOutcomes {summary : Summary} (h : summary.issues.length ≤ issueLimit)
    (outcomes : List Outcome) :
    (withOutcomes issueLimit outcomes summary).issues.length ≤ issueLimit := by
  unfold withOutcomes
  dsimp only
  rw [List.length_append, List.length_take]
  omega

theorem withOutcomes_append {summary : Summary} (h : summary.issues.length ≤ issueLimit)
    (first rest : List Outcome) :
    withOutcomes issueLimit (first ++ rest) summary =
      withOutcomes issueLimit rest (withOutcomes issueLimit first summary) := by
  rw [← tallyFiles_eq h, ← tallyFiles_eq h,
    ← tallyFiles_eq (by rw [tallyFiles_eq h]; exact length_issues_withOutcomes h first)]
  exact List.foldl_append

/-- The three counters of copies, which the files leave alone. -/
def withCopies (checked healthy failed : ℕ) (summary : Summary) : Summary :=
  { summary with
    checkedReplicas := summary.checkedReplicas + checked
    healthyReplicas := summary.healthyReplicas + healthy
    failedReplicas := summary.failedReplicas + failed }

theorem withOutcomes_withCopies (outcomes : List Outcome) (checked healthy failed : ℕ)
    (summary : Summary) :
    withOutcomes issueLimit outcomes (withCopies checked healthy failed summary) =
      withCopies checked healthy failed (withOutcomes issueLimit outcomes summary) := rfl

theorem withCopies_withCopies (a b c d e f : ℕ) (summary : Summary) :
    withCopies a b c (withCopies d e f summary) = withCopies (d + a) (e + b) (f + c) summary := by
  simp [withCopies, Nat.add_assoc]

theorem recordCopy_eq (failed : Bool) (summary : Summary) :
    recordCopy failed { summary with checkedReplicas := summary.checkedReplicas + 1 } =
      withCopies 1 (if failed then 0 else 1) (if failed then 1 else 0) summary := by
  cases failed <;> rfl

/-- The counters of a summary after all copies. -/
theorem tally_eq {summary : Summary} (h : summary.issues.length ≤ issueLimit)
    (copies : List (List Outcome)) :
    tally issueLimit copies summary =
      withCopies copies.length (copies.countP (fun outcomes => !anyFailed outcomes))
        (copies.countP anyFailed) (withOutcomes issueLimit copies.flatten summary) := by
  induction copies generalizing summary with
  | nil => rw [List.flatten_nil, withOutcomes_nil h]; rfl
  | cons outcomes copies ih =>
    have hstep : tally issueLimit (outcomes :: copies) summary =
        tally issueLimit copies (withCopies 1 (if anyFailed outcomes then 0 else 1)
          (if anyFailed outcomes then 1 else 0) (withOutcomes issueLimit outcomes summary)) := by
      have hfiles := @tallyFiles_eq issueLimit
        { summary with checkedReplicas := summary.checkedReplicas + 1 } h outcomes
      unfold tally
      rw [List.foldl_cons, hfiles, ← recordCopy_eq]
      rfl
    have hlength : (withCopies 1 (if anyFailed outcomes then 0 else 1)
        (if anyFailed outcomes then 1 else 0)
        (withOutcomes issueLimit outcomes summary)).issues.length ≤ issueLimit :=
      length_issues_withOutcomes h outcomes
    rw [hstep, ih hlength, withOutcomes_withCopies,
      withCopies_withCopies, List.flatten_cons, withOutcomes_append h]
    cases hfailed : anyFailed outcomes
    · simp [hfailed, Nat.add_comm]
    · simp [hfailed, Nat.add_comm]

/-- A summary apart from its text and the protocol that it names. -/
def classification (summary : Summary) : Summary :=
  { summary with safeMessage := "", protocol := .ftp }

/-- The classification that the outcomes of the copies amount to. -/
def reported (issueLimit skipped : ℕ) (copies : List (List Outcome)) : Summary where
  success := decide (problemsOf copies.flatten = [])
  safeMessage := ""
  checkedReplicas := copies.length
  healthyReplicas := copies.countP (fun outcomes => !anyFailed outcomes)
  failedReplicas := copies.countP anyFailed
  skippedReplicas := skipped
  checkedFiles := copies.flatten.length
  verifiedBytes := bytesOf copies.flatten
  missingFiles := countOf .missing copies.flatten
  sizeMismatches := countOf .sizeMismatch copies.flatten
  hashMismatches := countOf .hashMismatch copies.flatten
  unreadableFiles := countOf .unreadable copies.flatten
  issues := (problemsOf copies.flatten).take issueLimit
  issuesTruncated := decide (issueLimit < (problemsOf copies.flatten).length)
  protocol := .ftp

/-- Every file that is not in order is counted once. -/
theorem length_problemsOf (outcomes : List Outcome) :
    countOf .missing outcomes + countOf .sizeMismatch outcomes + countOf .hashMismatch outcomes +
      countOf .unreadable outcomes = (problemsOf outcomes).length := by
  induction outcomes with
  | nil => rfl
  | cons outcome outcomes ih =>
    obtain ⟨state, actualSize, issue⟩ := outcome
    unfold countOf problemsOf at *
    cases state <;> simp <;> simp at ih <;> omega

theorem classification_closeSummary (found : ℕ → ℕ → String) (nothing message : String)
    (protocol : DestinationProtocol) (skipped : ℕ) (copies : List (List Outcome)) :
    classification (closeSummary found nothing
        (tally issueLimit copies (initialSummary message protocol skipped))) =
      reported issueLimit skipped copies := by
  rw [tally_eq (Nat.zero_le _)]
  have hcount := length_problemsOf copies.flatten
  generalize hsummary : withCopies copies.length _ _ _ = summary
  have hissues : summary.issueCount = (problemsOf copies.flatten).length := by
    rw [← hsummary, ← hcount]
    unfold Summary.issueCount withCopies withOutcomes initialSummary
    simp
  have hopen : classification { summary with
      success := decide (problemsOf copies.flatten = []) } = reported issueLimit skipped copies := by
    rw [← hsummary]
    unfold classification reported withCopies withOutcomes initialSummary
    simp
  have hsuccess : summary.success = true := by rw [← hsummary]; rfl
  rw [← hopen]
  unfold closeSummary
  by_cases hnone : problemsOf copies.flatten = []
  · have hzero : ¬ summary.issueCount ≠ 0 := by simp [hissues, hnone]
    rw [if_neg hzero]
    have hkeep : classification summary =
        classification { summary with success := decide (problemsOf copies.flatten = []) } := by
      simp [hnone, ← hsuccess]
    split
    · exact hkeep
    · exact hkeep
  · have hpositive : summary.issueCount ≠ 0 := by simp [hissues, hnone]
    rw [if_pos hpositive]
    simp [classification, hnone]

end Tally

section Specification

variable (lib : Library)

/-- The files below the recorded paths of the copies. -/
abbrev RemoteTree := String → String → Option (List UInt8)

/-- A server that answers 550 for an absent file and serves the files that there are. -/
structure Serves (reader : FtpReader) (tree : RemoteTree) : Prop where
  typeImage : reader.typeImage = .ok ()
  absent : ∀ directory filename, tree directory filename = none →
    ∃ e, reader.size directory filename = .error e ∧ e.kind = .perm ∧ e.is550 = true
  size : ∀ directory filename content, tree directory filename = some content →
    reader.size directory filename = .ok (some content.length)
  content : ∀ directory filename content, tree directory filename = some content →
    ∃ chunks, reader.retrbinary directory filename = (chunks, none) ∧ chunks.flatten = content

/-- A mounted directory that can be read. -/
def mountOf (tree : RemoteTree) (directory filename : String) : MountedEntry :=
  match tree directory filename with
  | none => .absent
  | some content => .regular content

/-- The files of the artifacts of a copy. -/
def artifactFilesOf (copy : AuditedCopy) : List ExpectedRemoteFile :=
  copy.artifacts.map (expectedFile (remoteFilename lib copy.target copy.revision
    (usesReadableFtpLayout copy.replica.remotePath)
    (readableStemFromRevisionPath lib.nfkd copy.target copy.revision copy.replica.remotePath)))

/-- The manifest of a copy, as the audit expects it. -/
def manifestFileOf (copy : AuditedCopy) (manifestDeviceDirectory : Option String) :
    ExpectedRemoteFile :=
  let manifest := buildManifest lib copy.target copy.revision copy.artifacts
    (usesReadableFtpLayout copy.replica.remotePath)
    (readableStemFromRevisionPath lib.nfkd copy.target copy.revision copy.replica.remotePath)
    manifestDeviceDirectory
  ⟨manifestName, manifest.length, lib.sha256Hex manifest, "manifest"⟩

/-- What a file is, by what lies under its name. -/
def classify (tree : RemoteTree) (copy : AuditedCopy) (expected : ExpectedRemoteFile) :
    FileState × ℕ :=
  match tree copy.replica.remotePath expected.filename with
  | none => (.missing, 0)
  | some content =>
    (if expected.artifactType = "manifest" then
      if manifestMatchesRevision lib content copy.target copy.revision copy.artifacts
          copy.replica.remotePath (artifactFilesOf lib copy) then .ok else .hashMismatch
    else if content.length ≠ expected.size then .sizeMismatch
    else if lib.sha256Hex content ≠ expected.sha256 then .hashMismatch
    else .ok, content.length)

/-- The outcomes of the files of a copy, for a way to find the state of a file. -/
def outcomesBy (found : ExpectedRemoteFile → FileState × ℕ) (copy : AuditedCopy)
    (files : List ExpectedRemoteFile) : List Outcome :=
  files.map (fun expected => ⟨(found expected).1, (found expected).2,
    issueOf copy expected (found expected).1⟩)

/-- What the audit of a copy should find. -/
def outcomesOf (tree : RemoteTree) (copy : AuditedCopy) : List Outcome :=
  outcomesBy (classify lib tree copy) copy
    (artifactFilesOf lib copy ++ [manifestFileOf lib copy none])

/-- A copy that has been uploaded under a valid path: its names did not conflict, and the
upload looks for no artifact of the manifest's type. -/
structure Uploaded (destination : BackupDestination) (copy : AuditedCopy) : Prop where
  path : ∃ found, validateRecordedRevisionPath lib.nfkd destination copy.revision
    copy.target.deviceId copy.replica.remotePath "RECONCILIATION_PATH_INVALID" = .ok found
  names : ((artifactFilesOf lib copy).map (fun file => file.filename)).Nodup
  types : ∀ artifact ∈ copy.artifacts, artifact.artifactType ≠ "manifest"

/-- The manifest of a copy is there and not larger than what an audit reads of it. -/
def ManifestReadable (tree : RemoteTree) (copy : AuditedCopy) : Prop :=
  ∃ content, tree copy.replica.remotePath manifestName = some content ∧
    content.length ≤ maxManifestBytes

/-- The summary counts every file of the copies for what it is. -/
structure Classified (issueLimit : ℕ) (copies : List (List Outcome)) (summary : Summary) :
    Prop where
  success : summary.success = true ↔ ∀ outcome ∈ copies.flatten, outcome.state = .ok
  missing : summary.missingFiles = countOf .missing copies.flatten
  sizes : summary.sizeMismatches = countOf .sizeMismatch copies.flatten
  hashes : summary.hashMismatches = countOf .hashMismatch copies.flatten
  checked : summary.checkedReplicas = copies.length
  replicas : summary.healthyReplicas + summary.failedReplicas = summary.checkedReplicas
  issues : summary.issues = (problemsOf copies.flatten).take issueLimit

/-- Both audits of one tree classify its copies, and alike. -/
def ExactAudits (reader : FtpReader) (tree : RemoteTree) (destination : BackupDestination)
    (protocol : DestinationProtocol) (explicitReplicas : Bool) (copies : List AuditedCopy)
    (issueLimit : ℕ) : Prop :=
  ∃ ftp mounted,
    reconcileFtpDestination lib (.ok reader) destination explicitReplicas copies issueLimit =
      .ok ftp ∧
    reconcileMountedDestination lib (.ok (mountOf tree)) { destination with protocol := protocol }
      copies issueLimit = .ok mounted ∧
    Classified issueLimit ((copies.filter (auditable destination)).map (outcomesOf lib tree)) ftp ∧
    Classified issueLimit ((copies.filter (auditable destination)).map (outcomesOf lib tree))
      mounted ∧
    classification ftp = classification mounted

end Specification

section Inspection

variable {lib : Library} {reader : FtpReader} {tree : RemoteTree} {copy : AuditedCopy}
  {destination : BackupDestination} {issueLimit : ℕ}

theorem expectedFilesOf_eq
    (hnames : ((artifactFilesOf lib copy).map (fun file => file.filename)).Nodup)
    (manifestDeviceDirectory : Option String) :
    expectedFilesOf lib copy manifestDeviceDirectory =
      .ok (artifactFilesOf lib copy ++ [manifestFileOf lib copy manifestDeviceDirectory]) := by
  have hlist : expectedArtifactFiles (remoteFilename lib copy.target copy.revision
      (usesReadableFtpLayout copy.replica.remotePath)
      (readableStemFromRevisionPath lib.nfkd copy.target copy.revision copy.replica.remotePath)) []
      copy.artifacts = .ok (artifactFilesOf lib copy) := by
    refine expectedArtifactFiles_eq_ok.mpr ⟨rfl, ?_, by simp⟩
    unfold artifactFilesOf at hnames
    rwa [List.map_map] at hnames
  unfold expectedFilesOf expectedRevisionFiles
  rw [hlist]
  rfl

/-- The expected files are those of the artifacts, whose names differ, and the manifest. -/
theorem expectedFilesOf_ok {manifestDeviceDirectory : Option String}
    {expected : List ExpectedRemoteFile}
    (h : expectedFilesOf lib copy manifestDeviceDirectory = .ok expected) :
    expected = artifactFilesOf lib copy ++ [manifestFileOf lib copy manifestDeviceDirectory] ∧
      ((artifactFilesOf lib copy).map (fun file => file.filename)).Nodup := by
  have hnodup : ((artifactFilesOf lib copy).map (fun file => file.filename)).Nodup := by
    unfold expectedFilesOf expectedRevisionFiles at h
    cases hlist : expectedArtifactFiles (remoteFilename lib copy.target copy.revision
        (usesReadableFtpLayout copy.replica.remotePath)
        (readableStemFromRevisionPath lib.nfkd copy.target copy.revision copy.replica.remotePath))
        [] copy.artifacts with
    | error e =>
      rw [hlist] at h
      cases h
    | ok files =>
      have hnames := (expectedArtifactFiles_eq_ok.mp hlist).2.1
      unfold artifactFilesOf
      rw [List.map_map]
      exact hnames
  rw [expectedFilesOf_eq hnodup] at h
  exact ⟨(Except.ok.inj h).symm, hnodup⟩

/-- A manifest is compared with the files of the artifacts only. -/
theorem manifestMatchesRevision_concat (content : List UInt8) (files : List ExpectedRemoteFile)
    {manifest : ExpectedRemoteFile} (hmanifest : manifest.artifactType = "manifest") :
    manifestMatchesRevision lib content copy.target copy.revision copy.artifacts
        copy.replica.remotePath (files ++ [manifest]) =
      manifestMatchesRevision lib content copy.target copy.revision copy.artifacts
        copy.replica.remotePath files := by
  have hfiles : ∀ values artifacts, matchesArtifacts (files ++ [manifest]) values artifacts =
      matchesArtifacts files values artifacts := by
    intro values
    induction values with
    | nil => intro artifacts; cases artifacts <;> rfl
    | cons value values ih =>
      intro artifacts
      cases artifacts with
      | nil => rfl
      | cons artifact artifacts =>
        have hfilter : (files ++ [manifest]).filter (fun file => file.artifactType != "manifest") =
            files.filter (fun file => file.artifactType != "manifest") := by
          simp [hmanifest]
        rw [matchesArtifacts, matchesArtifacts, hfilter]
        cases (files.filter (fun file => file.artifactType != "manifest")).reverse.find?
            (fun file => file.artifactType == artifact.artifactType) with
        | none => rfl
        | some file => simp only [ih]
  unfold manifestMatchesRevision
  simp only [hfiles]

/-- What the FTP audit finds: a manifest that is absent or too large is unreadable. -/
def ftpFound (lib : Library) (tree : RemoteTree) (copy : AuditedCopy)
    (expected : ExpectedRemoteFile) : FileState × ℕ :=
  if expected.artifactType = "manifest" then
    match tree copy.replica.remotePath expected.filename with
    | none => (.unreadable, 0)
    | some content =>
      if maxManifestBytes < content.length then (.unreadable, 0)
      else classify lib tree copy expected
  else classify lib tree copy expected

/-- What the mounted audit finds: a manifest that is too large is of another size. -/
def mountedFound (lib : Library) (tree : RemoteTree) (copy : AuditedCopy)
    (expected : ExpectedRemoteFile) : FileState × ℕ :=
  if expected.artifactType = "manifest" then
    match tree copy.replica.remotePath expected.filename with
    | none => classify lib tree copy expected
    | some content =>
      if maxManifestBytes < content.length then (.sizeMismatch, content.length)
      else classify lib tree copy expected
  else classify lib tree copy expected

/-- The files that the audits of a copy walk over. -/
theorem matches_expected (content : List UInt8) (manifestDeviceDirectory : Option String) :
    manifestMatchesRevision lib content copy.target copy.revision copy.artifacts
        copy.replica.remotePath
        (artifactFilesOf lib copy ++ [manifestFileOf lib copy manifestDeviceDirectory]) =
      manifestMatchesRevision lib content copy.target copy.revision copy.artifacts
        copy.replica.remotePath (artifactFilesOf lib copy) :=
  manifestMatchesRevision_concat content _ rfl

theorem verifyRemoteFile_eq (hserves : Serves reader tree) (expected : ExpectedRemoteFile) :
    verifyRemoteFile lib reader copy
        (artifactFilesOf lib copy ++ [manifestFileOf lib copy none]) expected =
      .ok (ftpFound lib tree copy expected) := by
  unfold verifyRemoteFile ftpFound
  by_cases hmanifest : expected.artifactType = "manifest"
  · rw [if_pos hmanifest, if_pos hmanifest]
    congr 1
    unfold verifyRemoteManifest readRemote
    rw [hserves.typeImage]
    cases hcontent : tree copy.replica.remotePath expected.filename with
    | none =>
      obtain ⟨e, he, -, -⟩ := hserves.absent _ _ hcontent
      rw [he]
    | some content =>
      obtain ⟨chunks, hretr, hchunks⟩ := hserves.content _ _ _ hcontent
      rw [hserves.size _ _ _ hcontent, hretr]
      dsimp only
      by_cases hlarge : maxManifestBytes < content.length
      · rw [if_pos hlarge, if_pos (Or.inr (by exact_mod_cast hlarge))]
      · rw [if_neg hlarge, if_neg (by omega), if_neg (by rw [hchunks]; simp)]
        dsimp only
        rw [hchunks, matches_expected]
        unfold classify
        rw [hcontent]
        dsimp only
        rw [if_pos hmanifest]
        split <;> rfl
  · rw [if_neg hmanifest, if_neg hmanifest, hserves.typeImage]
    dsimp only
    unfold classify
    cases hcontent : tree copy.replica.remotePath expected.filename with
    | none =>
      obtain ⟨e, he, hkind, hcode⟩ := hserves.absent _ _ hcontent
      rw [he]
      dsimp only
      unfold stateOfError
      rw [hkind]
      dsimp only
      rw [if_pos hcode]
    | some content =>
      obtain ⟨chunks, hretr, hchunks⟩ := hserves.content _ _ _ hcontent
      rw [hserves.size _ _ _ hcontent, hretr]
      dsimp only
      rw [if_neg (by omega), if_neg hmanifest, hchunks]
      by_cases hsize : content.length = expected.size
      · simp only [hsize, ne_eq, not_true_eq_false, if_false]
        split <;> rfl
      · rw [if_pos (by exact_mod_cast hsize), if_pos hsize]
        rfl

/-- The mounted counterpart; the manifest's directory name plays no part. -/
theorem verifyMounted_eq (manifestDeviceDirectory : Option String)
    (expected : ExpectedRemoteFile) :
    (if expected.artifactType = "manifest" then
      verifyManifestFile lib (mountOf tree copy.replica.remotePath expected.filename) copy
        (artifactFilesOf lib copy ++ [manifestFileOf lib copy manifestDeviceDirectory])
    else verifyFile lib (mountOf tree copy.replica.remotePath expected.filename) expected) =
      mountedFound lib tree copy expected := by
  unfold mountedFound mountOf
  by_cases hmanifest : expected.artifactType = "manifest"
  · rw [if_pos hmanifest, if_pos hmanifest]
    unfold verifyManifestFile classify
    cases hcontent : tree copy.replica.remotePath expected.filename with
    | none => rfl
    | some content =>
      dsimp only
      rw [matches_expected, if_pos hmanifest]
      split
      · rfl
      · split <;> rfl
  · rw [if_neg hmanifest, if_neg hmanifest]
    unfold verifyFile classify
    cases hcontent : tree copy.replica.remotePath expected.filename with
    | none => rfl
    | some content =>
      dsimp only
      rw [if_neg hmanifest]
      split
      · rfl
      · split <;> rfl

/-- The outcomes that an audit reports for a copy. -/
def foundOutcomes (lib : Library)
    (found : AuditedCopy → ExpectedRemoteFile → FileState × ℕ) (copy : AuditedCopy) :
    List Outcome :=
  outcomesBy (found copy) copy (artifactFilesOf lib copy ++ [manifestFileOf lib copy none])

theorem auditFtpCopies_eq (hserves : Serves reader tree) {copies : List AuditedCopy}
    (huploaded : ∀ copy ∈ copies, Uploaded lib destination copy) (summary : Summary) :
    auditFtpCopies lib reader destination issueLimit copies summary =
      .ok (tally issueLimit (copies.map (foundOutcomes lib (ftpFound lib tree))) summary) := by
  induction copies generalizing summary with
  | nil => rfl
  | cons copy copies ih =>
    have hcopy := huploaded copy List.mem_cons_self
    obtain ⟨path, hpath⟩ := hcopy.path
    have hfiles := @auditFiles_eq FtpError issueLimit copy
      (verifyRemoteFile lib reader copy (artifactFilesOf lib copy ++ [manifestFileOf lib copy none]))
      (ftpFound lib tree copy) (artifactFilesOf lib copy ++ [manifestFileOf lib copy none])
      (fun expected _ => verifyRemoteFile_eq hserves expected)
      { summary with checkedReplicas := summary.checkedReplicas + 1 } false
    rw [auditFtpCopies, hpath, expectedFilesOf_eq hcopy.names]
    simp only [bind, Except.bind, hfiles]
    rw [ih fun other hother => huploaded other (List.mem_cons_of_mem _ hother)]
    rfl

/-- The name of the device directory in the expected manifest does not change the outcomes. -/
theorem outcomesBy_manifest (found : ExpectedRemoteFile → FileState × ℕ)
    (hfound : ∀ size sha256, found ⟨manifestName, size, sha256, "manifest"⟩ =
      found (manifestFileOf lib copy none)) (manifestDeviceDirectory : Option String) :
    outcomesBy found copy
        (artifactFilesOf lib copy ++ [manifestFileOf lib copy manifestDeviceDirectory]) =
      outcomesBy found copy (artifactFilesOf lib copy ++ [manifestFileOf lib copy none]) := by
  have hmanifest : found (manifestFileOf lib copy manifestDeviceDirectory) =
      found (manifestFileOf lib copy none) := hfound _ _
  have hissue : ∀ state, issueOf copy (manifestFileOf lib copy manifestDeviceDirectory) state =
      issueOf copy (manifestFileOf lib copy none) state := by
    intro state
    unfold issueOf manifestFileOf
    dsimp only
  unfold outcomesBy
  rw [List.map_append, List.map_append, List.map_singleton, List.map_singleton, hmanifest, hissue]

theorem auditMountedCopies_eq {copies : List AuditedCopy}
    (huploaded : ∀ copy ∈ copies, Uploaded lib destination copy) (summary : Summary) :
    auditMountedCopies lib (mountOf tree) destination issueLimit copies summary =
      .ok (tally issueLimit (copies.map (foundOutcomes lib (mountedFound lib tree))) summary) := by
  induction copies generalizing summary with
  | nil => rfl
  | cons copy copies ih =>
    have hcopy := huploaded copy List.mem_cons_self
    obtain ⟨⟨path, deviceDirectory⟩, hpath⟩ := hcopy.path
    have hfiles := @auditFiles_eq DestinationError issueLimit copy
      (fun expected => .ok (if expected.artifactType = "manifest" then
          verifyManifestFile lib (mountOf tree copy.replica.remotePath expected.filename) copy
            (artifactFilesOf lib copy ++ [manifestFileOf lib copy (some deviceDirectory)])
        else verifyFile lib (mountOf tree copy.replica.remotePath expected.filename) expected))
      (mountedFound lib tree copy)
      (artifactFilesOf lib copy ++ [manifestFileOf lib copy (some deviceDirectory)])
      (fun expected _ => congrArg Except.ok (verifyMounted_eq (some deviceDirectory) expected))
      { summary with checkedReplicas := summary.checkedReplicas + 1 } false
    have houtcomes := @outcomesBy_manifest lib copy (mountedFound lib tree copy)
      (fun _ _ => rfl) (some deviceDirectory)
    unfold outcomesBy at houtcomes
    rw [auditMountedCopies, hpath]
    simp only [bind, Except.bind, expectedFilesOf_eq hcopy.names, hfiles, houtcomes]
    rw [ih fun other hother => huploaded other (List.mem_cons_of_mem _ hother)]
    rfl

theorem reconcileFtpDestination_eq (hserves : Serves reader tree) {copies : List AuditedCopy}
    (huploaded : ∀ copy ∈ copies, auditable destination copy = true →
      Uploaded lib destination copy) (explicitReplicas : Bool) :
    ∃ summary, reconcileFtpDestination lib (.ok reader) destination explicitReplicas copies
        issueLimit = .ok summary ∧
      classification summary =
        reported issueLimit (copies.length - (copies.filter (auditable destination)).length)
          ((copies.filter (auditable destination)).map
            (foundOutcomes lib (ftpFound lib tree))) := by
  have hsupplied : ∀ copy ∈ copies.filter (auditable destination), Uploaded lib destination copy := by
    intro copy hcopy
    obtain ⟨hmem, haudit⟩ := List.mem_filter.mp hcopy
    exact huploaded copy hmem haudit
  unfold reconcileFtpDestination
  dsimp only
  by_cases hnone : (explicitReplicas && (copies.filter (auditable destination)).isEmpty) = true
  · rw [if_pos hnone]
    have hempty : copies.filter (auditable destination) = [] := by
      rw [Bool.and_eq_true] at hnone
      exact List.isEmpty_iff.mp hnone.2
    refine ⟨_, rfl, ?_⟩
    rw [hempty]
    simp [classification, reported, initialSummary, problemsOf, bytesOf, countOf]
  · rw [if_neg hnone]
    simp only [bind, Except.bind, auditFtpCopies_eq hserves hsupplied]
    exact ⟨_, rfl, classification_closeSummary _ _ _ _ _ _⟩

theorem reconcileMountedDestination_eq {copies : List AuditedCopy}
    (huploaded : ∀ copy ∈ copies, auditable destination copy = true →
      Uploaded lib destination copy) (hmounted : destination.protocol.mounted = true) :
    ∃ summary, reconcileMountedDestination lib (.ok (mountOf tree)) destination copies
        issueLimit = .ok summary ∧
      classification summary =
        reported issueLimit (copies.length - (copies.filter (auditable destination)).length)
          ((copies.filter (auditable destination)).map
            (foundOutcomes lib (mountedFound lib tree))) := by
  have hsupplied : ∀ copy ∈ copies.filter (auditable destination), Uploaded lib destination copy := by
    intro copy hcopy
    obtain ⟨hmem, haudit⟩ := List.mem_filter.mp hcopy
    exact huploaded copy hmem haudit
  unfold reconcileMountedDestination
  rw [hmounted]
  simp only [Bool.not_true, Bool.false_eq_true, if_false, bind, Except.bind,
    auditMountedCopies_eq hsupplied]
  exact ⟨_, rfl, classification_closeSummary _ _ _ _ _ _⟩

/-- A summary with the classification of some outcomes classifies them. -/
theorem Classified.of_reported {copies : List (List Outcome)} {summary : Summary} {skipped : ℕ}
    (h : classification summary = reported issueLimit skipped copies) :
    Classified issueLimit copies summary := by
  have hfields : ∀ {α : Type} (get : Summary → α),
      (get (classification summary)) = get (reported issueLimit skipped copies) :=
    fun get => congrArg get h
  have hsplit : copies.countP (fun outcomes => !anyFailed outcomes) + copies.countP anyFailed =
      copies.length := by
    rw [Nat.add_comm, List.length_eq_countP_add_countP anyFailed]
    congr 1
    exact List.countP_congr (by simp)
  have hhealthy := hfields (fun s => s.healthyReplicas + s.failedReplicas)
  refine
    { success := ?_
      missing := hfields (fun s => s.missingFiles)
      sizes := hfields (fun s => s.sizeMismatches)
      hashes := hfields (fun s => s.hashMismatches)
      checked := hfields (fun s => s.checkedReplicas)
      replicas := (hhealthy.trans hsplit).trans (hfields (fun s => s.checkedReplicas)).symm
      issues := hfields (fun s => s.issues) }
  have hsuccess : summary.success = decide (problemsOf copies.flatten = []) :=
    hfields (fun s => s.success)
  rw [hsuccess, decide_eq_true_iff]
  unfold problemsOf
  rw [List.map_eq_nil_iff, List.filter_eq_nil_iff]
  simp

theorem found_of_mem_artifactFiles (huploaded : Uploaded lib destination copy)
    {expected : ExpectedRemoteFile} (hmem : expected ∈ artifactFilesOf lib copy) :
    ftpFound lib tree copy expected = classify lib tree copy expected ∧
      mountedFound lib tree copy expected = classify lib tree copy expected := by
  obtain ⟨artifact, hartifact, rfl⟩ := List.mem_map.mp hmem
  have htype := huploaded.types artifact hartifact
  exact ⟨if_neg htype, if_neg htype⟩

theorem found_manifest (hreadable : ManifestReadable tree copy) :
    ftpFound lib tree copy (manifestFileOf lib copy none) =
        classify lib tree copy (manifestFileOf lib copy none) ∧
      mountedFound lib tree copy (manifestFileOf lib copy none) =
        classify lib tree copy (manifestFileOf lib copy none) := by
  obtain ⟨content, hcontent, hsize⟩ := hreadable
  have hentry : tree copy.replica.remotePath (manifestFileOf lib copy none).filename =
      some content := hcontent
  have hsmall : ¬ maxManifestBytes < content.length := by omega
  have htype : (manifestFileOf lib copy none).artifactType = "manifest" := rfl
  unfold ftpFound mountedFound
  rw [if_pos htype, if_pos htype, hentry]
  dsimp only
  rw [if_neg hsmall, if_neg hsmall]
  exact ⟨rfl, rfl⟩

/-- With a readable manifest both audits find what is there. -/
theorem foundOutcomes_eq (huploaded : Uploaded lib destination copy)
    (hreadable : ManifestReadable tree copy) :
    foundOutcomes lib (ftpFound lib tree) copy = outcomesOf lib tree copy ∧
      foundOutcomes lib (mountedFound lib tree) copy = outcomesOf lib tree copy := by
  have hfiles : ∀ expected ∈ artifactFilesOf lib copy ++ [manifestFileOf lib copy none],
      ftpFound lib tree copy expected = classify lib tree copy expected ∧
        mountedFound lib tree copy expected = classify lib tree copy expected := by
    intro expected hmem
    rcases List.mem_append.mp hmem with hartifact | hmanifest
    · exact found_of_mem_artifactFiles huploaded hartifact
    · obtain rfl := List.mem_singleton.mp hmanifest
      exact found_manifest hreadable
  unfold foundOutcomes outcomesOf outcomesBy
  constructor
  · exact List.map_congr_left fun expected hmem => by rw [(hfiles expected hmem).1]
  · exact List.map_congr_left fun expected hmem => by rw [(hfiles expected hmem).2]

theorem countOf_eq_zero {state : FileState} {outcomes : List Outcome} :
    countOf state outcomes = 0 ↔ ∀ outcome ∈ outcomes, outcome.state ≠ state := by
  unfold countOf
  rw [List.countP_eq_zero]
  simp

/-- No file of a readable directory is unreadable. -/
theorem mountedFound_ne_unreadable (expected : ExpectedRemoteFile) :
    (mountedFound lib tree copy expected).1 ≠ .unreadable := by
  have hclassify : (classify lib tree copy expected).1 ≠ .unreadable := by
    unfold classify
    split
    · simp
    · dsimp only
      split
      · split <;> simp
      · split
        · simp
        · split <;> simp
  unfold mountedFound
  split
  · split
    · exact hclassify
    · split
      · simp
      · exact hclassify
  · exact hclassify

/-- A manifest that is absent or too large counts as unreadable over FTP. -/
theorem ftpFound_manifest (hreadable : ¬ ManifestReadable tree copy) :
    ftpFound lib tree copy (manifestFileOf lib copy none) = (.unreadable, 0) := by
  have htype : (manifestFileOf lib copy none).artifactType = "manifest" := rfl
  unfold ftpFound
  rw [if_pos htype]
  cases hcontent : tree copy.replica.remotePath (manifestFileOf lib copy none).filename with
  | none => rfl
  | some content =>
    dsimp only
    rw [if_pos]
    by_contra hsmall
    exact hreadable ⟨content, hcontent, by omega⟩

end Inspection

/-- The server that serves a tree. -/
def serverOf (tree : RemoteTree) : FtpReader where
  typeImage := .ok ()
  size directory filename :=
    match tree directory filename with
    | none => .error ⟨.perm, "550 File not found."⟩
    | some content => .ok (some content.length)
  retrbinary directory filename :=
    match tree directory filename with
    | none => ([], some ⟨.perm, "550 File not found."⟩)
    | some content => ([content], none)

theorem serves_serverOf (tree : RemoteTree) : Serves (serverOf tree) tree where
  typeImage := rfl
  absent directory filename hentry := by
    refine ⟨⟨.perm, "550 File not found."⟩, ?_, rfl, by decide⟩
    simp [serverOf, hentry]
  size directory filename content hentry := by simp [serverOf, hentry]
  content directory filename content hentry := by
    exact ⟨[content], by simp [serverOf, hentry], by simp⟩

section Exactness

/-- The two audits agree, and report what is there, exactly where every manifest can be read:
over FTP a manifest that is absent is counted as unreadable, and so is one above the limit,
which the mounted audit counts as a file of another size. -/
theorem exactAudits_iff {lib : Library} {reader : FtpReader} {tree : RemoteTree}
    {destination : BackupDestination} {protocol : DestinationProtocol}
    {copies : List AuditedCopy} (hserves : Serves reader tree) (hmounted : protocol.mounted = true)
    (huploaded : ∀ copy ∈ copies, auditable destination copy = true →
      Uploaded lib destination copy) (explicitReplicas : Bool) (issueLimit : ℕ) :
    ExactAudits lib reader tree destination protocol explicitReplicas copies issueLimit ↔
      ∀ copy ∈ copies, auditable destination copy = true → ManifestReadable tree copy := by
  obtain ⟨ftp, hftp, hftpReport⟩ :=
    @reconcileFtpDestination_eq lib reader tree destination issueLimit hserves copies huploaded
      explicitReplicas
  have huploaded' : ∀ copy ∈ copies,
      auditable { destination with protocol := protocol } copy = true →
        Uploaded lib { destination with protocol := protocol } copy := by
    intro copy hmem haudit
    have hcopy := huploaded copy hmem haudit
    exact ⟨hcopy.path, hcopy.names, hcopy.types⟩
  obtain ⟨mounted, hmount, hmountReport⟩ :=
    @reconcileMountedDestination_eq lib tree { destination with protocol := protocol } issueLimit
      copies huploaded' hmounted
  have hsupplied : ∀ copy, copy ∈ copies.filter (auditable destination) ↔
      copy ∈ copies ∧ auditable destination copy = true := fun copy => List.mem_filter
  constructor
  · rintro ⟨ftp', mounted', hftp', hmount', -, -, hsame⟩ copy hmem haudit
    obtain rfl : ftp = ftp' := Except.ok.inj (hftp.symm.trans hftp')
    obtain rfl : mounted = mounted' := Except.ok.inj (hmount.symm.trans hmount')
    by_contra hreadable
    have hunreadable : countOf .unreadable ((copies.filter (auditable destination)).map
          (foundOutcomes lib (ftpFound lib tree))).flatten =
        countOf .unreadable ((copies.filter (auditable destination)).map
          (foundOutcomes lib (mountedFound lib tree))).flatten :=
      (congrArg Summary.unreadableFiles
        (hftpReport.symm.trans (hsame.trans hmountReport)) : _)
    have hnone : countOf .unreadable ((copies.filter (auditable destination)).map
        (foundOutcomes lib (mountedFound lib tree))).flatten = 0 := by
      rw [countOf_eq_zero]
      intro outcome houtcome
      obtain ⟨outcomes, houtcomes, hout⟩ := List.mem_flatten.mp houtcome
      obtain ⟨other, -, rfl⟩ := List.mem_map.mp houtcomes
      obtain ⟨expected, -, rfl⟩ := List.mem_map.mp hout
      exact mountedFound_ne_unreadable expected
    rw [hnone, countOf_eq_zero] at hunreadable
    let expected := manifestFileOf lib copy none
    refine hunreadable ⟨(ftpFound lib tree copy expected).1, (ftpFound lib tree copy expected).2,
      issueOf copy expected (ftpFound lib tree copy expected).1⟩ ?_ ?_
    · refine List.mem_flatten.mpr ⟨_, List.mem_map_of_mem ((hsupplied copy).mpr ⟨hmem, haudit⟩), ?_⟩
      exact List.mem_map_of_mem (List.mem_append_right _ (List.mem_singleton.mpr rfl))
    · exact congrArg Prod.fst (ftpFound_manifest hreadable)
  · intro hreadable
    have houtcomes : ∀ copy ∈ copies.filter (auditable destination),
        foundOutcomes lib (ftpFound lib tree) copy = outcomesOf lib tree copy ∧
          foundOutcomes lib (mountedFound lib tree) copy = outcomesOf lib tree copy := by
      intro copy hcopy
      obtain ⟨hmem, haudit⟩ := (hsupplied copy).mp hcopy
      exact foundOutcomes_eq (huploaded copy hmem haudit) (hreadable copy hmem haudit)
    have hftpMap := List.map_congr_left fun copy hcopy => (houtcomes copy hcopy).1
    have hmountMap := List.map_congr_left fun copy hcopy => (houtcomes copy hcopy).2
    rw [hftpMap] at hftpReport
    have hmountReport' : classification mounted =
        reported issueLimit (copies.length - (copies.filter (auditable destination)).length)
          ((copies.filter (auditable destination)).map (outcomesOf lib tree)) := by
      rw [← hmountMap]
      exact hmountReport
    exact ⟨ftp, mounted, hftp, hmount, .of_reported hftpReport, .of_reported hmountReport',
      hftpReport.trans hmountReport'.symm⟩

/-- The bytes of an empty object. -/
def emptyObject : List UInt8 := [123, 125]

/-- JSON of which only the empty object is used, and the digest of one byte. -/
def exampleLibrary : Library where
  nfkd := id
  sha256Hex content :=
    if content = [97] then "ca978112ca1bbdcafac231b39a23dc4da786eff8147c4e72b9807785afee48bb"
    else ""
  loads content := if content = emptyObject then some (.object []) else none
  dumps _ := emptyObject

/-- An uploaded copy of one artifact. -/
def exampleAuditedCopy : AuditedCopy where
  replica := { exampleCopy with remotePath := "/backups/devices/router-7/revisions/revision-1" }
  revision := exampleRevision 1 0 none
  target := exampleTarget
  artifacts := rowsOf (dottedArtifacts.take 1)

theorem exampleAuditedCopy_uploaded :
    Uploaded exampleLibrary exampleDestination exampleAuditedCopy where
  path := ⟨("revisions", "router-7"), by decide +kernel⟩
  names := List.nodup_singleton _
  types := by decide

/-- A directory in which every name holds an empty object. -/
theorem exactAudits_iff_altered :
    ExactAudits exampleLibrary (serverOf fun _ _ => some emptyObject)
      (fun _ _ => some emptyObject) exampleDestination .nfs true [exampleAuditedCopy] 10 :=
  (exactAudits_iff (serves_serverOf _) rfl
    (by simpa using fun _ => exampleAuditedCopy_uploaded) true 10).mpr
    (by simpa using fun _ => ⟨_, rfl, by decide⟩)

/-- Over FTP the manifest of an empty directory is unreadable, and so not missing. -/
theorem exactAudits_counterexample :
    ¬ ∀ (lib : Library) (reader : FtpReader) (tree : RemoteTree) (destination : BackupDestination)
        (protocol : DestinationProtocol) (explicitReplicas : Bool) (copies : List AuditedCopy)
        (issueLimit : ℕ), Serves reader tree → protocol.mounted = true →
        (∀ copy ∈ copies, auditable destination copy = true → Uploaded lib destination copy) →
        ExactAudits lib reader tree destination protocol explicitReplicas copies issueLimit := by
  intro h
  obtain ⟨ftp, mounted, hftp, hmounted, -, -, hsame⟩ := h exampleLibrary
    (serverOf fun _ _ => none) (fun _ _ => none) exampleDestination .nfs true [exampleAuditedCopy] 10
    (serves_serverOf _) rfl (by simpa using fun _ => exampleAuditedCopy_uploaded)
  have hfound : (reconcileFtpDestination exampleLibrary (.ok (serverOf fun _ _ => none))
      exampleDestination true [exampleAuditedCopy] 10).toOption.map Summary.unreadableFiles =
        some 1 := by decide +kernel
  have hnone : (reconcileMountedDestination exampleLibrary (.ok (mountOf fun _ _ => none))
      { exampleDestination with protocol := .nfs } [exampleAuditedCopy] 10).toOption.map
        Summary.unreadableFiles = some 0 := by decide +kernel
  rw [hftp] at hfound
  rw [hmounted] at hnone
  have hftpCount : ftp.unreadableFiles = 1 := Option.some.inj hfound
  have hmountedCount : mounted.unreadableFiles = 0 := Option.some.inj hnone
  have hcount : ftp.unreadableFiles = mounted.unreadableFiles :=
    (congrArg Summary.unreadableFiles hsame : _)
  omega

end Exactness

end ConfigBackup.IntegrityAudit
