import ConfigBackup.IntegrityAudit

/-!
The verified download of a copy into an archive. Each file is written to the archive while
its hash is computed; the manifest, which comes last, is read whole and compared with the
revision. Any reply that does not fit raises, and then the archive is given up.
-/

namespace ConfigBackup.RecoveryArchive

open ExceptLoops IntegrityAudit Models PosixPaths RecordedPaths RemoteFileNames Replication
  RevisionFiles Text

/-- The members that the archive has received, in their order. -/
abbrev Members := List (String × List UInt8)

structure VerifiedFtpDownloadResult where
  fileCount : ℕ
  verifiedBytes : ℕ
  remotePath : String
deriving DecidableEq, Repr

/-- For the place of a file: what replies to its commands, and whether the archive cannot take
the member. -/
structure Replies where
  reader : ℕ → FtpReader
  archiveFails : ℕ → Bool

section Errors

def packageTooLarge : DestinationError :=
  ⟨"RECOVERY_PACKAGE_TOO_LARGE",
    "The FTP revision copy exceeds the configured recovery package size limit."⟩

def downloadFailed : DestinationError :=
  ⟨"RECOVERY_DOWNLOAD_FAILED", "The verified FTP recovery package could not be downloaded."⟩

/-- A failed command; what is neither permanent nor temporary leaves the loop. -/
def commandFailed (message : String) (e : FtpError) : DestinationError :=
  match e.kind with
  | .perm =>
    ⟨if e.is550 then "RECOVERY_FILE_MISSING" else "RECOVERY_FILE_UNREADABLE", message⟩
  | .temp => ⟨"RECOVERY_FILE_UNREADABLE", message⟩
  | .other => downloadFailed

end Errors

section Program

variable (lib : Library)

/-- `write_chunk` on the chunks of a download: how much has been downloaded. -/
def writeChunks (expectedSize : ℕ) : ℕ → List (List UInt8) → Except DestinationError ℕ
  | downloaded, [] => .ok downloaded
  | downloaded, chunk :: rest =>
    if expectedSize < downloaded + chunk.length then
      .error ⟨"RECOVERY_SIZE_MISMATCH",
        "An FTP revision file changed while it was being downloaded."⟩
    else writeChunks expectedSize (downloaded + chunk.length) rest

/-- The file of an artifact. -/
def recoverArtifact (reader : FtpReader) (archiveFails : Bool) (directory : String)
    (expected : ExpectedRemoteFile) : Except DestinationError (List UInt8) :=
  match reader.typeImage, reader.size directory expected.filename with
  | .error e, _ | .ok _, .error e =>
    .error (commandFailed "An expected file in the FTP revision copy could not be read." e)
  | .ok _, .ok remoteSize =>
    if remoteSize ≠ some (expected.size : ℤ) then
      .error ⟨"RECOVERY_SIZE_MISMATCH",
        "An FTP revision file no longer matches its recorded size."⟩
    else if archiveFails then .error downloadFailed
    else
      let reply := reader.retrbinary directory expected.filename
      match writeChunks expected.size 0 reply.1, reply.2 with
      | .error e, _ => .error e
      | .ok _, some e =>
        .error (commandFailed
          "An expected file in the FTP revision copy could not be downloaded." e)
      | .ok downloaded, none =>
        if downloaded ≠ expected.size then
          .error ⟨"RECOVERY_SIZE_MISMATCH", "An FTP revision file was incomplete when downloaded."⟩
        else if lib.sha256Hex reply.1.flatten ≠ expected.sha256 then
          .error ⟨"RECOVERY_HASH_MISMATCH",
            "An FTP revision file failed SHA256 integrity verification."⟩
        else .ok reply.1.flatten

/-- The manifest, of which no more is read than the limit leaves. -/
def recoverManifest (reader : FtpReader) (archiveFails : Bool) (copy : AuditedCopy)
    (expectedFiles : List ExpectedRemoteFile) (expected : ExpectedRemoteFile)
    (remainingBytes : ℤ) : Except DestinationError (List UInt8) :=
  if remainingBytes ≤ 0 then .error packageTooLarge
  else
    match readRemote reader copy.replica.remotePath expected.filename
        (min maxManifestBytes remainingBytes.toNat) with
    | .error _ =>
      .error ⟨"RECOVERY_FILE_UNREADABLE", "The FTP revision manifest could not be read safely."⟩
    | .ok content =>
      if !manifestMatchesRevision lib content copy.target copy.revision copy.artifacts
          copy.replica.remotePath expectedFiles then
        .error ⟨"RECOVERY_HASH_MISMATCH",
          "The FTP revision manifest does not match its revision metadata."⟩
      else if archiveFails then .error downloadFailed
      else .ok content

/-- `posixpath.join(archive_prefix, filename)`. -/
def memberName (archivePrefix filename : String) : String :=
  String.ofList (joinPath archivePrefix.toList filename.toList)

/-- A name that cannot be a member of the archive. -/
def unsafeName (filename : String) : Bool :=
  pureName filename.toList != filename.toList || filename == "" || filename == "." ||
    filename == ".."

/-- One pass of the loop over the expected files. -/
def recoverFile (replies : Replies) (copy : AuditedCopy) (expectedFiles : List ExpectedRemoteFile)
    (maxTotalBytes : ℤ) (place : ℕ) (expected : ExpectedRemoteFile) (verifiedBytes : ℕ) :
    Except DestinationError (List UInt8) :=
  if unsafeName expected.filename then
    .error ⟨"RECOVERY_ARCHIVE_PATH_INVALID",
      "An FTP artifact filename could not be archived safely."⟩
  else if expected.artifactType = "manifest" then
    recoverManifest lib (replies.reader place) (replies.archiveFails place) copy expectedFiles
      expected (maxTotalBytes - verifiedBytes)
  else
    recoverArtifact lib (replies.reader place) (replies.archiveFails place)
      copy.replica.remotePath expected

/-- The loop over the expected files: the members and the verified bytes. -/
def recoverFiles (replies : Replies) (copy : AuditedCopy)
    (expectedFiles : List ExpectedRemoteFile) (archivePrefix : String) (maxTotalBytes : ℤ) :
    ℕ → List ExpectedRemoteFile → Members → ℕ → Except DestinationError (Members × ℕ)
  | _, [], members, verifiedBytes => .ok (members, verifiedBytes)
  | place, expected :: rest, members, verifiedBytes =>
    match recoverFile lib replies copy expectedFiles maxTotalBytes place expected
        verifiedBytes with
    | .error e => .error e
    | .ok content =>
      recoverFiles replies copy expectedFiles archivePrefix maxTotalBytes (place + 1) rest
        (members ++ [(memberName archivePrefix expected.filename, content)])
        (verifiedBytes + content.length)

/-- `PurePosixPath(archive_prefix)` leaves the archive. -/
def unsafePrefix (archivePrefix : String) : Bool :=
  (rootOf archivePrefix.toList != []) || (pureParts archivePrefix.toList).any (fun part =>
    part == [] || part == ['.'] || part == ['.', '.'])

/-- `write_verified_ftp_replica_to_archive`; the members are what the archive has received. -/
def writeVerifiedFtpReplicaToArchive (destination : BackupDestination) (copy : AuditedCopy)
    (connection : Except DestinationError Unit) (replies : Replies) (archivePrefix : String)
    (maxTotalBytes : ℤ) : Except DestinationError (VerifiedFtpDownloadResult × Members) :=
  if destination.protocol ≠ .ftp then
    .error ⟨"RECOVERY_PROTOCOL_UNSUPPORTED",
      "A verified recovery package can currently be prepared only from FTP."⟩
  else if copy.replica.status ≠ .success then
    .error ⟨"RECOVERY_REPLICA_NOT_READY",
      "The selected FTP revision copy has not completed successfully."⟩
  else if !copy.replica.remoteAvailable || copy.replica.remoteDeletedAt.isSome then
    .error ⟨"RECOVERY_REPLICA_EXPIRED",
      "The selected FTP revision copy has expired and is no longer available."⟩
  else if unsafePrefix archivePrefix then
    .error ⟨"RECOVERY_ARCHIVE_PATH_INVALID",
      "The recovery archive path could not be generated safely."⟩
  else do
    let _ ← validateRecordedRevisionPath lib.nfkd destination copy.revision copy.target.deviceId
      copy.replica.remotePath "RECOVERY_REMOTE_PATH_INVALID"
    let expectedFiles ← expectedFilesOf lib copy none
    let totalExpected := ((expectedFiles.filter (fun file => file.artifactType != "manifest")).map
      (fun file => (file.size : ℤ))).sum
    if maxTotalBytes ≤ 0 ∨ maxTotalBytes < totalExpected then throw packageTooLarge
    else do
      connection
      let (members, verifiedBytes) ← recoverFiles lib replies copy expectedFiles archivePrefix
        maxTotalBytes 0 expectedFiles [] 0
      pure (⟨expectedFiles.length, verifiedBytes, copy.replica.remotePath⟩, members)

end Program

section Specification

variable (lib : Library)

/-- What a reader sends for a file, without a failure. -/
structure Sends (reader : FtpReader) (directory filename : String) (content : List UInt8) :
    Prop where
  typeImage : reader.typeImage = .ok ()
  size : reader.size directory filename = .ok (some content.length)
  retrbinary : ∃ chunks, reader.retrbinary directory filename = (chunks, none) ∧
    chunks.flatten = content

/-- The content is that of the expected file. -/
def Genuine (copy : AuditedCopy) (expected : ExpectedRemoteFile) (content : List UInt8) : Prop :=
  if expected.artifactType = "manifest" then
    manifestMatchesRevision lib content copy.target copy.revision copy.artifacts
      copy.replica.remotePath (artifactFilesOf lib copy) = true ∧ content.length ≤ maxManifestBytes
  else content.length = expected.size ∧ lib.sha256Hex content = expected.sha256

/-- The expected files of a copy, the manifest last. -/
def filesOf (copy : AuditedCopy) : List ExpectedRemoteFile :=
  artifactFilesOf lib copy ++ [manifestFileOf lib copy none]

def totalBytes (members : Members) : ℕ := (members.map (fun member => member.2.length)).sum

/-- The archive holds the expected files of the copy and nothing else, each of them genuine and
as it was sent. -/
structure Verified (copy : AuditedCopy) (replies : Replies) (archivePrefix : String)
    (members : Members) : Prop where
  count : members.length = copy.artifacts.length + 1
  types : ∀ artifact ∈ copy.artifacts, artifact.artifactType ≠ "manifest"
  member : ∀ place expected, (filesOf lib copy)[place]? = some expected →
    ∃ content, members[place]? = some (memberName archivePrefix expected.filename, content) ∧
      Genuine lib copy expected content ∧
      Sends (replies.reader place) copy.replica.remotePath expected.filename content

end Specification

section Files

variable {lib : Library} {reader : FtpReader} {archiveFails : Bool} {copy : AuditedCopy}
  {directory : String} {expected : ExpectedRemoteFile} {expectedFiles : List ExpectedRemoteFile}
  {content : List UInt8}

theorem length_of_writeChunks {expectedSize downloaded total : ℕ} {chunks : List (List UInt8)}
    (h : writeChunks expectedSize downloaded chunks = .ok total) :
    total = downloaded + chunks.flatten.length := by
  induction chunks generalizing downloaded with
  | nil =>
    cases h
    rfl
  | cons chunk rest ih =>
    unfold writeChunks at h
    split at h
    · cases h
    · rw [ih h, List.flatten_cons, List.length_append]
      omega

/-- An artifact that is recovered was sent whole, with its recorded size and hash. -/
theorem recoverArtifact_ok
    (h : recoverArtifact lib reader archiveFails directory expected = .ok content) :
    (content.length = expected.size ∧ lib.sha256Hex content = expected.sha256) ∧
      Sends reader directory expected.filename content := by
  unfold recoverArtifact at h
  cases htype : reader.typeImage with
  | error e =>
    rw [htype] at h
    cases h
  | ok _ =>
    cases hsize : reader.size directory expected.filename with
    | error e =>
      rw [htype, hsize] at h
      cases h
    | ok remoteSize =>
      rw [htype, hsize] at h
      dsimp only at h
      split at h
      · cases h
      · rename_i hequal
        rw [ne_eq, not_not] at hequal
        split at h
        · cases h
        · generalize hreply : reader.retrbinary directory expected.filename = reply at h
          cases hwrite : writeChunks expected.size 0 reply.1 with
          | error e =>
            rw [hwrite] at h
            cases h
          | ok downloaded =>
            have hlength := length_of_writeChunks hwrite
            cases hfailure : reply.2 with
            | some e =>
              rw [hwrite, hfailure] at h
              cases h
            | none =>
              rw [hwrite, hfailure] at h
              dsimp only at h
              split at h
              · cases h
              · rename_i hcomplete
                split at h
                · cases h
                · rename_i hhash
                  cases h
                  rw [ne_eq, not_not] at hcomplete hhash
                  have hfull : reply.1.flatten.length = expected.size := by omega
                  refine ⟨⟨hfull, hhash⟩, htype, ?_, reply.1, ?_, rfl⟩
                  · rw [hsize, hequal, hfull]
                  · rw [hreply, ← hfailure]

theorem readRemote_ok {filename : String} {maxBytes : ℕ}
    (h : readRemote reader directory filename maxBytes = .ok content) :
    content.length ≤ maxBytes ∧ Sends reader directory filename content := by
  unfold readRemote at h
  cases htype : reader.typeImage with
  | error e =>
    rw [htype] at h
    cases h
  | ok _ =>
    cases hsize : reader.size directory filename with
    | error e =>
      rw [htype, hsize] at h
      cases h
    | ok remoteSize =>
      rw [htype, hsize] at h
      cases remoteSize with
      | none => cases h
      | some size =>
        dsimp only at h
        split at h
        · cases h
        · rename_i hbounds
          rcases hretr : reader.retrbinary directory filename with ⟨chunks, failure⟩
          rw [hretr] at h
          cases failure with
          | some e => cases h
          | none =>
            dsimp only at h
            split at h
            · cases h
            · rename_i hcomplete
              cases h
              rw [ne_eq, not_not] at hcomplete
              refine ⟨by omega, htype, ?_, chunks, hretr, rfl⟩
              rw [hsize, hcomplete]

theorem recoverManifest_ok {remainingBytes : ℤ}
    (h : recoverManifest lib reader archiveFails copy expectedFiles expected remainingBytes =
      .ok content) :
    manifestMatchesRevision lib content copy.target copy.revision copy.artifacts
        copy.replica.remotePath expectedFiles = true ∧
      content.length ≤ maxManifestBytes ∧ (content.length : ℤ) ≤ remainingBytes ∧
      Sends reader copy.replica.remotePath expected.filename content := by
  unfold recoverManifest at h
  split at h
  · cases h
  · rename_i hremaining
    cases hread : readRemote reader copy.replica.remotePath expected.filename
        (min maxManifestBytes remainingBytes.toNat) with
    | error e =>
      rw [hread] at h
      cases h
    | ok found =>
      rw [hread] at h
      dsimp only at h
      obtain ⟨hlength, hsends⟩ := readRemote_ok hread
      split at h
      · cases h
      · rename_i hmatches
        split at h
        · cases h
        · cases h
          refine ⟨by simpa using hmatches, by omega, by omega, hsends⟩

theorem types_of_matches {values : List JsonValue} {artifacts : List ConfigArtifact}
    (h : matchesArtifacts expectedFiles values artifacts = true) :
    ∀ artifact ∈ artifacts, artifact.artifactType ≠ "manifest" := by
  induction artifacts generalizing values with
  | nil => simp
  | cons artifact rest ih =>
    cases values with
    | nil => cases h
    | cons value values =>
      unfold matchesArtifacts at h
      cases hfound : (expectedFiles.filter
          (fun file => file.artifactType != "manifest")).reverse.find?
          (fun file => file.artifactType == artifact.artifactType) with
      | none =>
        rw [hfound] at h
        cases h
      | some file =>
        rw [hfound] at h
        obtain ⟨_, hrest⟩ := Bool.and_eq_true_iff.mp h
        intro other hother
        rcases List.mem_cons.mp hother with rfl | hother
        · have hmem := List.mem_reverse.mp (List.mem_of_find?_eq_some hfound)
          have hlisted := (List.mem_filter.mp hmem).2
          have hsame := List.find?_some hfound
          rw [beq_iff_eq] at hsame
          rw [← hsame]
          simpa using hlisted
        · exact ih hrest other hother

/-- A manifest lists no artifact of its own type. -/
theorem types_of_manifest
    (h : manifestMatchesRevision lib content copy.target copy.revision copy.artifacts
      copy.replica.remotePath expectedFiles = true) :
    ∀ artifact ∈ copy.artifacts, artifact.artifactType ≠ "manifest" := by
  unfold manifestMatchesRevision at h
  split at h
  · dsimp only at h
    split at h
    · obtain ⟨_, hartifacts⟩ := Bool.and_eq_true_iff.mp h
      split at hartifacts
      · exact types_of_matches hartifacts
      · cases hartifacts
    · cases h
  · cases h

variable {replies : Replies} {archivePrefix : String} {maxTotalBytes : ℤ}

/-- A pass of the loop over a genuine file. -/
theorem recoverFile_ok {place verifiedBytes : ℕ}
    (h : recoverFile lib replies copy (filesOf lib copy) maxTotalBytes place expected
      verifiedBytes = .ok content) :
    Genuine lib copy expected content ∧
      Sends (replies.reader place) copy.replica.remotePath expected.filename content ∧
      (expected.artifactType = "manifest" →
        ((verifiedBytes + content.length : ℕ) : ℤ) ≤ maxTotalBytes ∧
        ∀ artifact ∈ copy.artifacts, artifact.artifactType ≠ "manifest") := by
  unfold recoverFile at h
  unfold Genuine
  split at h
  · cases h
  · split at h
    · rename_i hmanifest
      obtain ⟨hmatches, hlength, hremaining, hsends⟩ := recoverManifest_ok h
      have htypes := types_of_manifest hmatches
      unfold filesOf at hmatches
      rw [manifestMatchesRevision_concat _ _ rfl] at hmatches
      rw [if_pos hmanifest]
      exact ⟨⟨hmatches, hlength⟩, hsends, fun _ => ⟨by omega, htypes⟩⟩
    · rename_i hartifact
      obtain ⟨hgenuine, hsends⟩ := recoverArtifact_ok h
      rw [if_neg hartifact]
      exact ⟨hgenuine, hsends, fun hmanifest => absurd hmanifest hartifact⟩

theorem totalBytes_append (front rest : Members) :
    totalBytes (front ++ rest) = totalBytes front + totalBytes rest := by
  unfold totalBytes
  rw [List.map_append, List.sum_append]

theorem totalBytes_cons (name : String) (content : List UInt8) (rest : Members) :
    totalBytes ((name, content) :: rest) = content.length + totalBytes rest := by
  unfold totalBytes
  rw [List.map_cons, List.sum_cons]

/-- The loop adds one member for each file, read after those before it. -/
theorem recoverFiles_ok {place verifiedBytes total : ℕ} {files : List ExpectedRemoteFile}
    {members result : Members}
    (h : recoverFiles lib replies copy expectedFiles archivePrefix maxTotalBytes place files members
      verifiedBytes = .ok (result, total)) :
    ∃ more, result = members ++ more ∧ more.length = files.length ∧
      total = verifiedBytes + totalBytes more ∧
      ∀ i expected, files[i]? = some expected → ∃ content,
        more[i]? = some (memberName archivePrefix expected.filename, content) ∧
        recoverFile lib replies copy expectedFiles maxTotalBytes (place + i) expected
          (verifiedBytes + totalBytes (more.take i)) = .ok content := by
  induction files generalizing place members verifiedBytes with
  | nil =>
    cases h
    exact ⟨[], by simp, rfl, rfl, by simp⟩
  | cons file rest ih =>
    unfold recoverFiles at h
    cases hfile : recoverFile lib replies copy expectedFiles maxTotalBytes place file
        verifiedBytes with
    | error e =>
      rw [hfile] at h
      cases h
    | ok content =>
      rw [hfile] at h
      obtain ⟨more, hresult, hcount, htotal, hmore⟩ := ih h
      refine ⟨(memberName archivePrefix file.filename, content) :: more, ?_, ?_, ?_, ?_⟩
      · rw [hresult, List.append_assoc, List.singleton_append]
      · rw [List.length_cons, List.length_cons, hcount]
      · rw [htotal, totalBytes_cons]
        omega
      · intro i expected hexpected
        cases i with
        | zero =>
          cases hexpected
          exact ⟨content, rfl, hfile⟩
        | succ i =>
          obtain ⟨found, hmember, hread⟩ := hmore i expected hexpected
          refine ⟨found, hmember, ?_⟩
          rw [show place + (i + 1) = place + 1 + i by omega, List.take_succ_cons,
            totalBytes_cons, ← Nat.add_assoc]
          exact hread

end Files

section Downloads

variable {lib : Library} {destination : BackupDestination} {copy : AuditedCopy}
  {connection : Except DestinationError Unit} {replies : Replies} {archivePrefix : String}
  {maxTotalBytes : ℤ} {result : VerifiedFtpDownloadResult} {members : Members}

/-- A download that returns has gone through all expected files. -/
theorem recoverFiles_of_returns
    (h : writeVerifiedFtpReplicaToArchive lib destination copy connection replies archivePrefix
      maxTotalBytes = .ok (result, members)) :
    expectedFilesOf lib copy none = .ok (filesOf lib copy) ∧
      result.fileCount = (filesOf lib copy).length ∧
      recoverFiles lib replies copy (filesOf lib copy) archivePrefix maxTotalBytes 0
        (filesOf lib copy) [] 0 = .ok (members, result.verifiedBytes) := by
  unfold writeVerifiedFtpReplicaToArchive at h
  split at h
  · cases h
  · split at h
    · cases h
    · split at h
      · cases h
      · split at h
        · cases h
        · obtain ⟨_, _, h⟩ := bind_eq_ok.mp h
          obtain ⟨expectedFiles, hexpected, h⟩ := bind_eq_ok.mp h
          have hfiles := (expectedFilesOf_ok hexpected).1
          dsimp only at h
          split at h
          · cases h
          · obtain ⟨_, _, h⟩ := bind_eq_ok.mp h
            obtain ⟨⟨found, verifiedBytes⟩, hrecovered, h⟩ := bind_eq_ok.mp h
            cases h
            rw [hfiles] at hexpected hrecovered ⊢
            exact ⟨hexpected, rfl, hrecovered⟩

/-- The archive of a download that returns. -/
theorem verified_of_returns
    (h : writeVerifiedFtpReplicaToArchive lib destination copy connection replies archivePrefix
      maxTotalBytes = .ok (result, members)) :
    Verified lib copy replies archivePrefix members ∧
      result.fileCount = members.length ∧ result.verifiedBytes = totalBytes members ∧
      (totalBytes members : ℤ) ≤ maxTotalBytes := by
  obtain ⟨_, hcount, hrecovered⟩ := recoverFiles_of_returns h
  obtain ⟨more, hmembers, hlength, htotal, hfile⟩ := recoverFiles_ok hrecovered
  rw [List.nil_append] at hmembers
  subst hmembers
  have hsize : (filesOf lib copy).length = copy.artifacts.length + 1 := by
    unfold filesOf artifactFilesOf
    rw [List.length_append, List.length_map, List.length_singleton]
  -- The manifest is the last file, so the limit that its reading keeps is that of all bytes.
  have hlast : (filesOf lib copy)[copy.artifacts.length]? =
      some (manifestFileOf lib copy none) := by
    unfold filesOf
    rw [List.getElem?_append_right (by simp [artifactFilesOf])]
    simp [artifactFilesOf]
  obtain ⟨manifest, hmanifest, hread⟩ := hfile _ _ hlast
  obtain ⟨_, _, hlimit⟩ := recoverFile_ok hread
  obtain ⟨hbytes, htypes⟩ := hlimit rfl
  refine ⟨⟨hlength.trans hsize, htypes, fun place expected hexpected => ?_⟩, ?_, ?_, ?_⟩
  · obtain ⟨content, hmember, hcontent⟩ := hfile place expected hexpected
    rw [Nat.zero_add] at hcontent
    obtain ⟨hgenuine, hsends, _⟩ := recoverFile_ok hcontent
    exact ⟨content, hmember, hgenuine, hsends⟩
  · rw [hcount, hlength]
  · rw [htotal, Nat.zero_add]
  · have hsplit : totalBytes members =
        totalBytes (members.take copy.artifacts.length) + manifest.length := by
      conv_lhs => rw [← List.take_of_length_le (show members.length ≤ copy.artifacts.length + 1 by
        omega), List.take_add_one, hmanifest, totalBytes_append]
      rfl
    rw [hsplit]
    omega

/-- A download that completes sends the file of the tree; any command may fail. -/
def Answers (reader : FtpReader) (tree : RemoteTree) : Prop :=
  ∀ directory filename chunks, reader.retrbinary directory filename = (chunks, none) →
    tree directory filename = some chunks.flatten

/-- The file lies on the server as it is recorded, and its commands do not fail. -/
def Intact (lib : Library) (tree : RemoteTree) (copy : AuditedCopy) (reader : FtpReader)
    (expected : ExpectedRemoteFile) : Prop :=
  ∃ content, tree copy.replica.remotePath expected.filename = some content ∧
    Genuine lib copy expected content ∧
    Sends reader copy.replica.remotePath expected.filename content

theorem intact_of_returns {tree : RemoteTree}
    (hanswers : ∀ place, Answers (replies.reader place) tree)
    (h : writeVerifiedFtpReplicaToArchive lib destination copy connection replies archivePrefix
      maxTotalBytes = .ok (result, members)) {place : ℕ} {expected : ExpectedRemoteFile}
    (hexpected : (filesOf lib copy)[place]? = some expected) :
    Intact lib tree copy (replies.reader place) expected := by
  obtain ⟨content, _, hgenuine, hsends⟩ := (verified_of_returns h).1.member place expected hexpected
  obtain ⟨chunks, hretr, hchunks⟩ := hsends.retrbinary
  refine ⟨content, ?_, hgenuine, hsends⟩
  rw [hanswers place _ _ _ hretr, hchunks]

/-- The bytes of the expected files that lie on the server. -/
def treeBytes (lib : Library) (tree : RemoteTree) (copy : AuditedCopy) : ℕ :=
  ((filesOf lib copy).map (fun expected =>
    ((tree copy.replica.remotePath expected.filename).getD []).length)).sum

theorem totalBytes_of_returns {tree : RemoteTree}
    (hanswers : ∀ place, Answers (replies.reader place) tree)
    (h : writeVerifiedFtpReplicaToArchive lib destination copy connection replies archivePrefix
      maxTotalBytes = .ok (result, members)) : totalBytes members = treeBytes lib tree copy := by
  have hverified := (verified_of_returns h).1
  unfold totalBytes treeBytes
  congr 1
  apply List.ext_getElem?
  intro place
  rw [List.getElem?_map, List.getElem?_map]
  cases hexpected : (filesOf lib copy)[place]? with
  | none =>
    have hlength : (filesOf lib copy).length = members.length := by
      rw [hverified.count]
      unfold filesOf artifactFilesOf
      rw [List.length_append, List.length_map, List.length_singleton]
    rw [List.getElem?_eq_none_iff] at hexpected
    rw [List.getElem?_eq_none_iff.mpr (by omega)]
    rfl
  | some expected =>
    obtain ⟨content, hmember, _, hsends⟩ := hverified.member place expected hexpected
    obtain ⟨chunks, hretr, hchunks⟩ := hsends.retrbinary
    have htree := hanswers place _ _ _ hretr
    rw [hmember, Option.map_some, Option.map_some, htree, hchunks]
    rfl

end Downloads

end ConfigBackup.RecoveryArchive
