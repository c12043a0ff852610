import ConfigBackup.AuditedUploads

/-!
The upload of a copy that has been uploaded before: its result was lost, or it is tried again.
Nothing is written where everything is there.
-/

namespace ConfigBackup.RepeatedUploads

open AuditedUploads FileTrees FtpDeletion FtpListings FtpServer FtpUpload IntegrityAudit
  ManifestRecognition Models NewestCopies PosixPaths RecordedPaths RemoteFileNames Replication
  Requests RevisionFiles

section Repetition

variable {conn : Connection} {lib : Library} {residue : List UInt8 → List UInt8}
  {inv p : Site → Prop} {path : List String} {name : String} {content found : List UInt8}
  {raised : Failure → Site → Prop}

/-- The directories that are there are entered, and none is made. -/
theorem runs_mkdirs_kept (hinv : ∀ w, p w → inv w) (hstable : Stable p)
    (h : ∀ w, p w → w.get path = some .directory) :
    Runs inv p (mkdirs conn path) (fun _ w => p w) (fun _ w => p w) := by
  induction path with
  | nil => exact runs_pure fun w hw => hw
  | cons name parent ih =>
    have hparent : ∀ w, p w → w.get parent = some .directory := fun w hw =>
      w.tree.closed name parent (by rw [show w.tree.get (name :: parent) = _ from h w hw]; rfl)
    unfold mkdirs
    refine Runs.bind (ih hparent) fun _ => ?_
    have hcwd := (@runs_cwd conn inv p (name :: parent) hinv hstable).mono
      (fun _ _ hw => hw.2.2) fun _ _ hw => hw.choose_spec.2.2
    refine Runs.bind hcwd.attempt fun reply => ?_
    rcases reply with (e | e | _) | -
    · dsimp only
      split
      · exact runs_throw fun w hw => hw
      · split
        · exact runs_throw fun w hw => hw
        · have hproof := @runs_absentFromParentListing conn inv p hinv hstable (name :: parent)
          refine Runs.bind (hproof.mono (fun _ _ hw => hw.2.2) fun _ _ hw => hw.elim)
            fun absent => ?_
          split
          · refine Runs.bind (runs_mkd hinv fun w hw hnone => ?_).attempt fun made => ?_
            · rw [h w hw] at hnone
              cases hnone
            · cases made with
              | ok u => exact runs_cwdAfterMkdir hinv hstable 5
              | error e => exact runs_cwdAfterMkdir hinv hstable 5
          · exact runs_throw fun w hw => hw
    · exact runs_throw fun w hw => hw
    · exact runs_throw fun w hw => hw
    · exact runs_pure fun w hw => hw

theorem runs_remoteExists_kept (hinv : ∀ w, p w → inv w) (hstable : Stable p)
    (h : ∀ w, p w → w.get path = some (.file found)) :
    Runs inv p (remoteExists conn path) (fun r w => r = true ∧ p w) (fun _ w => p w) := by
  refine (runs_remoteExists hinv hstable).mono (fun r w hw => ⟨?_, hw.2⟩) fun _ _ hw => hw
  cases r with
  | true => rfl
  | false => exact absurd (h w hw.2) (hw.1 rfl found)

/-- A file with the hash that is there is left as it is. -/
theorem runs_putImmutable_kept (hinv : ∀ w, p w → inv w) (hstable : Stable p)
    (h : ∀ w, p w → w.get (name :: path) = some (.file found)) :
    Runs inv p (putImmutable conn lib residue path name content (lib.sha256Hex content))
      (fun created w => created = false ∧ p w) (fun _ w => p w) := by
  unfold putImmutable
  refine Runs.bind (runs_remoteExists_kept hinv hstable h) fun present => Runs.assume ?_
  rintro rfl
  rw [if_pos rfl]
  refine Runs.bind ((runs_readBack hinv content.length).mono (fun _ _ hw => hw.2)
    fun _ _ hw => hw) fun existing => ?_
  split
  · exact runs_pure fun w hw => ⟨rfl, hw⟩
  · exact runs_throw fun w hw => hw

theorem runs_remoteExists_present (hreliable : Reliable conn) (hinv : ∀ w, p w → inv w)
    (h : ∀ w, p w → w.get (name :: path) = some (.file found)) :
    Runs inv p (remoteExists conn (name :: path)) (fun r w => r = true ∧ p w) raised := by
  have hlist : Runs inv p (nlstPath conn (name :: path))
      (fun entries w => (!entries.isEmpty) = true ∧ p w) (fun _ _ => False) := by
    refine runs_answered hreliable hinv fun w hw => ?_
    dsimp only
    rw [h w hw]
    exact ⟨_, rfl, rfl, hw⟩
  unfold remoteExists
  refine Runs.bind hlist.attempt fun reply => ?_
  rcases reply with e | entries
  · exact runs_absurd
  · exact runs_pure fun w hw => hw

/-- Over a reliable connection it is read and accepted. -/
theorem runs_putImmutable_accepted (hreliable : Reliable conn) (hinv : ∀ w, p w → inv w)
    (h : ∀ w, p w → w.get (name :: path) = some (.file found))
    (hlength : found.length ≤ content.length)
    (hhash : lib.sha256Hex found = lib.sha256Hex content) :
    Runs inv p (putImmutable conn lib residue path name content (lib.sha256Hex content))
      (fun created w => created = false ∧ p w) raised := by
  unfold putImmutable
  refine Runs.bind (runs_remoteExists_present hreliable hinv h) fun present => Runs.assume ?_
  rintro rfl
  rw [if_pos rfl]
  refine Runs.bind (runs_readBack_answered hreliable hinv h hlength) fun existing => Runs.assume ?_
  rintro rfl
  rw [if_pos hhash]
  exact runs_pure fun w hw => ⟨rfl, hw⟩

/-- A file that is larger than what is allowed is not read. -/
theorem runs_readBack_refused {maxBytes : ℕ} (hreliable : Reliable conn) (hinv : ∀ w, p w → inv w)
    (h : ∀ w, p w → w.get path = some (.file found)) (hlarge : maxBytes < found.length) :
    Runs inv p (readBack conn path maxBytes) (fun _ _ => False)
      (fun e w => (∃ error, e = .destination error) ∧ p w) := by
  have hcontent : ∀ w, p w → contentOf conn w path = .ok found := by
    intro w hw
    unfold contentOf
    rw [h w hw]
  have hsize : Runs inv p (do typeImage conn; size conn path)
      (fun r w => r = some (found.length : ℤ) ∧ p w) (fun _ _ => False) := by
    have htype : Runs inv p (typeImage conn) (fun _ w => p w) (fun _ _ => False) :=
      runs_answered hreliable hinv fun w hw => ⟨(), rfl, hw⟩
    refine Runs.bind htype fun _ => ?_
    refine runs_answered hreliable hinv fun w hw => ⟨some (found.length : ℤ), ?_, rfl, hw⟩
    dsimp only
    rw [hcontent w hw]
    rfl
  unfold readBack
  refine Runs.bind ((runs_orRaise hsize).mono (fun _ _ hw => hw) fun _ _ hw => hw.elim)
    fun size => Runs.assume ?_
  rintro rfl
  dsimp only
  rw [if_pos (Or.inr (Int.ofNat_lt.mpr hlarge))]
  exact runs_throw fun w hw => ⟨⟨_, rfl⟩, hw⟩

variable {read : String → Option (List UInt8)} {maxArtifactSize : ℕ}
  {expected : List ExpectedRemoteFile} {copy : AuditedCopy} {manifest : List UInt8}

/-- The loop over artifacts that are all there, as long as each is left as it is. -/
theorem runs_uploadArtifacts_kept (artifacts : List ConfigArtifact)
    (h : ∀ artifact ∈ artifacts, ∃ upload,
      nextUpload lib read maxArtifactSize expected artifact = some upload ∧
      Runs inv p (putImmutable conn lib residue path upload.1 upload.2 (lib.sha256Hex upload.2))
        (fun created w => created = false ∧ p w) raised) (transferred : ℕ) :
    Runs inv p (uploadArtifacts conn lib residue path read maxArtifactSize expected artifacts
      transferred) (fun n w => n = transferred ∧ p w) raised := by
  induction artifacts generalizing transferred with
  | nil => exact runs_pure fun w hw => ⟨rfl, hw⟩
  | cons artifact rest ih =>
    obtain ⟨upload, hnext, hput⟩ := h artifact List.mem_cons_self
    obtain ⟨hload, file, hfile, hname⟩ := nextUpload_eq_some hnext
    unfold uploadArtifacts
    rw [hload, hfile]
    dsimp only
    rw [← hname]
    refine Runs.bind hput fun created => Runs.assume ?_
    rintro rfl
    rw [if_neg Bool.false_ne_true]
    exact ih (fun other hmem => h other (List.mem_cons_of_mem _ hmem)) transferred

theorem runs_uploadManifest_kept (hinv : ∀ w, p w → inv w) (hstable : Stable p)
    (h : ∀ w, p w → w.get (manifestName :: path) = some (.file found)) :
    Runs inv p (uploadManifest conn lib residue path copy expected manifest)
      (fun _ w => p w) (fun _ w => p w) := by
  unfold uploadManifest
  refine Runs.bind (runs_remoteExists_kept hinv hstable h) fun present => Runs.assume ?_
  rintro rfl
  rw [if_pos rfl]
  have hread := (@runs_readBack conn inv p (manifestName :: path) hinv maxManifestBytes).mono
    (fun _ _ hw => hw.2) fun _ _ hw => hw
  refine Runs.bind (Runs.handle hread fun e => ?_) fun existing => ?_
  · cases e with
    | ftp e => exact runs_throw fun w hw => hw
    | destination e => exact runs_throw fun w hw => hw
    | other => exact runs_throw fun w hw => hw
  · split
    · exact runs_pure fun w hw => hw
    · exact runs_throw fun w hw => hw

/-- `DESTINATION_CONFLICT`. -/
def Conflict (e : Failure) : Prop :=
  ∃ safeMessage, e = .destination ⟨"DESTINATION_CONFLICT", safeMessage⟩

/-- A manifest that is there is accepted or is in conflict. -/
theorem runs_uploadManifest_present (hreliable : Reliable conn) (hinv : ∀ w, p w → inv w)
    (h : ∀ w, p w → w.get (manifestName :: path) = some (.file found)) {sound : Prop}
    (hsound : sound ↔ found.length ≤ maxManifestBytes ∧ manifestMatchesRevision lib found
      copy.target copy.revision copy.artifacts copy.replica.remotePath expected = true) :
    Runs inv p (uploadManifest conn lib residue path copy expected manifest)
      (fun n w => n = 0 ∧ sound ∧ p w) (fun e w => Conflict e ∧ ¬ sound ∧ p w) := by
  unfold uploadManifest
  refine Runs.bind (runs_remoteExists_present hreliable hinv h) fun present => Runs.assume ?_
  rintro rfl
  rw [if_pos rfl]
  by_cases hlarge : maxManifestBytes < found.length
  · have hunsound : ¬ sound := fun hs => absurd (hsound.mp hs).1 (Nat.not_le.mpr hlarge)
    refine Runs.bind ((Runs.handle (runs_readBack_refused hreliable hinv h hlarge) fun e =>
      Runs.assume ?_).mono (fun _ _ hw => hw) fun _ _ hw => hw) fun existing => runs_absurd
    rintro ⟨error, rfl⟩
    exact runs_throw fun w hw => ⟨⟨_, rfl⟩, hunsound, hw⟩
  · have hread : Runs inv p (readBack conn (manifestName :: path) maxManifestBytes)
        (fun r w => r = found ∧ p w) (fun _ _ => False) :=
      runs_readBack_answered hreliable hinv h (Nat.le_of_not_lt hlarge)
    refine Runs.bind ((Runs.handle hread fun e => runs_absurd).mono (fun _ _ hw => hw)
      fun _ _ hw => hw) fun existing => Runs.assume ?_
    rintro rfl
    split
    · rename_i hmatches
      exact runs_pure fun w hw => ⟨rfl, hsound.mpr ⟨Nat.le_of_not_lt hlarge, hmatches⟩, hw⟩
    · rename_i hmatches
      exact runs_throw fun w hw => ⟨⟨_, rfl⟩, fun hs => hmatches (hsound.mp hs).2, hw⟩

/-- The same files, whatever the current directory is. -/
def Unchanged (w w' : Site) : Prop := ∃ path, w' = { w with cwd := path }

theorem Unchanged.get_eq {w w' : Site} (h : Unchanged w w') (q : List String) :
    w'.get q = w.get q := by
  obtain ⟨path, rfl⟩ := h
  rfl

theorem stable_unchanged (w : Site) : Stable (Unchanged w) := by
  rintro w' path ⟨other, rfl⟩
  exact ⟨path, rfl⟩

/-- The files of a copy are there, each with the hash of what would be uploaded. -/
structure Whole (lib : Library) (read : String → Option (List UInt8)) (maxArtifactSize : ℕ)
    (copy : AuditedCopy) (expected : List ExpectedRemoteFile) (w : Site) : Prop where
  artifacts : ∀ artifact ∈ copy.artifacts, ∃ upload found,
    nextUpload lib read maxArtifactSize expected artifact = some upload ∧
    w.get (upload.1 :: remoteDirectory copy.replica.remotePath) = some (.file found) ∧
    found.length ≤ upload.2.length ∧ lib.sha256Hex found = lib.sha256Hex upload.2
  manifest : ∃ found,
    w.get (manifestName :: remoteDirectory copy.replica.remotePath) = some (.file found)

theorem Whole.directory {w : Site} (h : Whole lib read maxArtifactSize copy expected w) :
    w.get (remoteDirectory copy.replica.remotePath) = some .directory := by
  obtain ⟨found, hfound⟩ := h.manifest
  exact w.tree.closed manifestName _ (by
    rw [show w.tree.get (manifestName :: _) = _ from hfound]
    rfl)

/-- Whatever the connection does, an upload of what is there changes nothing. -/
theorem runs_uploadFiles_kept {w : Site} (h : Whole lib read maxArtifactSize copy expected w) :
    Runs (Unchanged w) (Unchanged w) (uploadFiles conn lib residue
        (remoteDirectory copy.replica.remotePath) read maxArtifactSize copy expected manifest)
      (fun _ w' => Unchanged w w') (fun _ w' => Unchanged w w') := by
  have hstable := stable_unchanged w
  obtain ⟨found, hfound⟩ := h.manifest
  unfold uploadFiles
  refine Runs.bind (runs_orRaise (runs_mkdirs_kept (fun _ hw => hw) hstable fun w' hw =>
    (hw.get_eq _).trans h.directory)) fun _ => ?_
  refine Runs.bind (runs_orRaise (runs_uploadArtifacts_kept copy.artifacts
    (fun artifact hmem => ?_) 0)) fun transferred => ?_
  · obtain ⟨upload, there, hnext, hthere, -, -⟩ := h.artifacts artifact hmem
    exact ⟨upload, hnext, runs_putImmutable_kept (fun _ hw => hw) hstable fun w' hw =>
      (hw.get_eq _).trans hthere⟩
  refine Runs.bind (runs_orRaise ((runs_uploadManifest_kept (fun _ hw => hw) hstable
    fun w' hw => (hw.get_eq _).trans hfound).weaken fun w' hw => hw.2)) fun bytes => ?_
  exact runs_pure fun w' hw => hw

/-- Over a reliable connection it transfers nothing, or is in conflict with the manifest. -/
theorem runs_uploadFiles_present {w : Site} (hreliable : Reliable conn)
    (h : Whole lib read maxArtifactSize copy expected w) {sound : Prop}
    (hsound : sound ↔ ∃ found,
      w.get (manifestName :: remoteDirectory copy.replica.remotePath) = some (.file found) ∧
      found.length ≤ maxManifestBytes ∧ manifestMatchesRevision lib found copy.target copy.revision
        copy.artifacts copy.replica.remotePath expected = true) :
    Runs (fun _ => True) (Unchanged w) (uploadFiles conn lib residue
        (remoteDirectory copy.replica.remotePath) read maxArtifactSize copy expected manifest)
      (fun r _ => sound ∧ r = ⟨copy.replica.remotePath, 0, copy.artifacts.length⟩)
      (fun e _ => ¬ sound ∧ Conflict e) := by
  have hstable := stable_unchanged w
  obtain ⟨found, hfound⟩ := h.manifest
  have hfound' : sound ↔ found.length ≤ maxManifestBytes ∧ manifestMatchesRevision lib found
      copy.target copy.revision copy.artifacts copy.replica.remotePath expected = true := by
    rw [hsound, hfound]
    simp
  have hmkdirs : Runs (fun _ => True) (Unchanged w) (mkdirs conn
      (remoteDirectory copy.replica.remotePath)) (fun _ w' => Unchanged w w') (fun _ _ => False) :=
    runs_mkdirs_answered hreliable (fun _ _ => trivial) hstable fun w' hw =>
      (hw.get_eq _).trans h.directory
  have hartifacts : Runs (fun _ => True) (Unchanged w) (uploadArtifacts conn lib residue
      (remoteDirectory copy.replica.remotePath) read maxArtifactSize expected copy.artifacts 0)
      (fun n w' => n = 0 ∧ Unchanged w w') (fun _ _ => False) := by
    refine runs_uploadArtifacts_kept copy.artifacts (fun artifact hmem => ?_) 0
    obtain ⟨upload, there, hnext, hthere, hlength, hhash⟩ := h.artifacts artifact hmem
    exact ⟨upload, hnext, runs_putImmutable_accepted hreliable (fun _ _ => trivial)
      (fun w' hw => (hw.get_eq _).trans hthere) hlength hhash⟩
  unfold uploadFiles
  refine Runs.bind ((runs_orRaise hmkdirs).mono (fun _ _ hw => hw) fun _ _ hw => hw.elim)
    fun _ => ?_
  refine Runs.bind ((runs_orRaise hartifacts).mono (fun _ _ hw => hw) fun _ _ hw => hw.elim)
    fun transferred => Runs.assume ?_
  rintro rfl
  have hmanifest := @runs_uploadManifest_present conn lib residue (fun _ => True) (Unchanged w)
    (remoteDirectory copy.replica.remotePath) found expected copy manifest hreliable
    (fun _ _ => trivial) (fun w' hw => (hw.get_eq _).trans hfound) sound hfound'
  refine Runs.bind (Runs.handle hmanifest fun e => ?_) fun bytes => ?_
  · cases e with
    | ftp e => exact runs_throw fun w' ⟨⟨_, hconflict⟩, _⟩ => by cases hconflict
    | destination e => exact runs_throw fun w' hw => ⟨hw.2.1, hw.1⟩
    | other => exact runs_throw fun w' hw => ⟨hw.2.1, hw.1⟩
  · refine runs_pure fun w' hw => ⟨hw.2.1, ?_⟩
    rw [hw.1]

variable {destination : BackupDestination} {recorded repeated copy' : AuditedCopy}
  {expected' : List ExpectedRemoteFile} {manifest' : List UInt8} {before : Site}
  {layout deviceDirectory : String} {r : ReplicationResult} {d : Client Site}

theorem expectedByType_append {file : ExpectedRemoteFile} (hfile : file.artifactType = "manifest")
    (files : List ExpectedRemoteFile) (artifactType : String) :
    expectedByType (files ++ [file]) artifactType = expectedByType files artifactType := by
  unfold expectedByType
  rw [List.filter_append, List.filter_cons_of_neg (by simp [hfile]), List.filter_nil,
    List.append_nil]

/-- A copy that has been uploaded is whole. -/
theorem whole_of_upload
    (htypes : (recorded.artifacts.map (fun artifact => artifact.artifactType)).Nodup)
    (hset : uploadFileset lib destination recorded = .ok (copy, expected, manifest))
    (hpath : validateRecordedRevisionPath lib.nfkd destination copy.revision copy.target.deviceId
      copy.replica.remotePath "REPLICATION_PATH_INVALID" = .ok (layout, deviceDirectory))
    (hseparate : SeparateFiles expected) (hunforged : Unforged lib copy before)
    (hreturned : replicateRevisionFtp conn lib residue read destination recorded ⟨before, []⟩ =
      .ok r d)
    (hset' : uploadFileset lib destination repeated = .ok (copy', expected', manifest'))
    (haudited : AuditedAs copy copy') :
    Whole lib read destination.maxArtifactSize copy' expected' d.world := by
  obtain ⟨⟨there, hthere, -⟩, hartifacts, -⟩ := left_by_upload htypes hset hseparate hreturned
  obtain ⟨hfiles, -⟩ := uploadFileset_ok htypes hset
  obtain ⟨_, _, -, -, hexpected, -⟩ := uploadFileset_parts hset
  obtain ⟨_, _, -, -, hexpected', -⟩ := uploadFileset_parts hset'
  have hnames : ∀ artifactType, expectedByType expected' artifactType =
      expectedByType expected artifactType := by
    intro artifactType
    rw [hexpected, hexpected', expectedByType_append rfl, expectedByType_append rfl,
      haudited.artifactFilesOf_eq hpath]
  refine ⟨fun artifact hmem => ?_, there, by rw [haudited.path]; exact hthere⟩
  rw [haudited.artifacts] at hmem
  obtain ⟨upload, hnext, found, hfound, hhash⟩ := hartifacts artifact hmem
  obtain ⟨-, content, hcontent, hsize, -⟩ :=
    artifacts_there htypes hset hseparate hunforged hreturned hmem
  rw [← (nextUpload_own hfiles hmem hnext).1, hfound] at hcontent
  cases hcontent
  refine ⟨upload, found, ?_, by rw [haudited.path]; exact hfound, ?_, hhash⟩
  · unfold nextUpload at hnext ⊢
    rw [hnames]
    exact hnext
  · rw [(loadArtifact_ok (nextUpload_eq_some hnext).1).1, hsize]

end Repetition

end ConfigBackup.RepeatedUploads
