import ConfigBackup.ManifestRecognition
import ConfigBackup.SharedMount

/-!
What an audit finds where an upload has returned. An upload over FTP creates a file under its
own name only by a rename of what has been read back; a file that was there is accepted for
its hash, and a manifest for its fields.
-/

namespace ConfigBackup.AuditedUploads

open FileTrees FtpDeletion FtpListings FtpServer FtpUpload IntegrityAudit ManifestRecognition Models
  NewestCopies PosixPaths RecordedPaths RemoteFileNames Replication Requests RevisionFiles

section Arrivals

variable {conn : Connection} {lib : Library} {residue : List UInt8 → List UInt8}
  {inv p : Site → Prop} {path : List String} {name : String} {content manifest : List UInt8}

/-- A file with the hash of a content. -/
def There (lib : Library) (path : List String) (name : String) (content : List UInt8) (w : Site) :
    Prop :=
  ∃ found, w.get (name :: path) = some (.file found) ∧
    lib.sha256Hex found = lib.sha256Hex content

/-- A file that is renamed to a free name is there under that name. -/
theorem runs_rename_there {fromName toName : String} (hne : fromName ≠ toName)
    (hinv : ∀ w, p w → inv w)
    (hcreate : ∀ w, p w → w.get (toName :: path) = none →
      p (w.put toName path (some (.file content))))
    (hclean : ∀ w, p w → p (w.put fromName path none)) :
    Runs inv (fun w => w.get (fromName :: path) = some (.file content) ∧
        (∀ other, w.get (toName :: path) ≠ some (.file other)) ∧ p w)
      (rename conn fromName toName path)
      (fun _ w => w.get (toName :: path) = some (.file content) ∧ p w) (fun _ w => p w) := by
  have hafter : ∀ w, w.get (toName :: path) = none → p w →
      p ((w.put toName path (some (.file content))).put fromName path none) :=
    fun w hnone hw => hclean _ (hcreate w hw hnone)
  refine runs_command_keeping (fun w hw => hinv w hw.2.2) (fun _ hw => hw.2.2) ?_ ?_
  · rintro w ⟨hfrom, hto, hw⟩
    rw [hfrom]
    cases hentry : w.get (toName :: path) with
    | none =>
      dsimp only
      rw [if_neg hne]
      split
      · exact hw
      · exact hafter w hentry hw
    | some entry =>
      cases entry with
      | file other => exact absurd hentry (hto other)
      | directory => exact hw
  · rintro w u ⟨hfrom, hto, hw⟩ hok
    rw [hfrom] at hok ⊢
    cases hentry : w.get (toName :: path) with
    | none =>
      rw [hentry] at hok
      dsimp only at hok ⊢
      rw [if_neg hne] at hok ⊢
      split at hok
      · cases hok
      · rename_i hrefused
        rw [if_neg hrefused]
        have hproper : ProperName toName := by simpa using hrefused
        have hparent : w.get path = some .directory :=
          w.tree.closed fromName path (by
            rw [show w.tree.get (fromName :: path) = _ from hfrom]
            rfl)
        refine ⟨?_, hafter w hentry hw⟩
        rw [Site.get_put_of_ne (cons_ne_cons hne.symm)]
        exact Site.get_put_self hproper (.leaf hparent (by
          rw [show w.tree.get (toName :: path) = none from hentry]
          simp))
    | some entry =>
      cases entry with
      | file other => exact absurd hentry (hto other)
      | directory =>
        rw [hentry] at hok
        cases hok

theorem runs_uploadVerified_there (hinv : ∀ w, p w → inv w) (h : Keeps p path name content) :
    Runs inv (fun w => (∀ other, w.get (name :: path) ≠ some (.file other)) ∧ p w)
      (uploadVerified conn lib residue path name content (lib.sha256Hex content))
      (fun _ w => w.get (name :: path) = some (.file content) ∧ p w) (fun _ w => p w) := by
  have hstore := @runs_store conn inv
    (fun w => (∀ other, w.get (name :: path) ≠ some (.file other)) ∧ p w) (temporaryName name)
    path content residue (fun w hw => hinv w hw.2) fun w part hw =>
      ⟨by rw [get_put_temporary]; exact hw.1, h.upload w part hw.2⟩
  unfold uploadVerified
  refine Runs.bind (hstore.mono (fun _ _ hw => hw) fun _ _ hw => hw.2) fun _ => ?_
  have hread := @runs_readBack conn inv
    (fun w => w.get (temporaryName name :: path) = some (.file content) ∧
      (∀ other, w.get (name :: path) ≠ some (.file other)) ∧ p w)
    (temporaryName name :: path) (fun w hw => hinv w hw.2.2) content.length
  refine Runs.bind (hread.mono (fun _ w hw => hw.2) fun _ _ hw => hw.2.2) fun uploaded => ?_
  split
  · exact runs_throw fun w hw => hw.2.2
  · exact runs_orRaise (runs_rename_there (temporaryName_ne name) hinv h.create h.clean)

/-- An upload of a file that returns leaves one of that hash. -/
theorem runs_putImmutable_there (hinv : ∀ w, p w → inv w) (h : Keeps p path name content) :
    Runs inv p (putImmutable conn lib residue path name content (lib.sha256Hex content))
      (fun _ w => There lib path name content w ∧ p w) (fun _ w => p w) := by
  unfold putImmutable
  refine Runs.bind (runs_remoteExists hinv h.stable) fun found => ?_
  cases found with
  | true =>
    rw [if_pos rfl]
    refine Runs.bind ((runs_readBack hinv content.length).weaken fun w hw => hw.2)
      fun existing => ?_
    split
    · rename_i hhash
      exact runs_pure fun w hw => ⟨⟨existing, hw.1, hhash⟩, hw.2⟩
    · exact runs_throw fun w hw => hw.2
  | false =>
    rw [if_neg Bool.false_ne_true]
    refine Runs.bind ((runs_uploadVerified_there hinv h).weaken fun w hw =>
      ⟨hw.1 rfl, hw.2⟩).attempt fun result => ?_
    cases result with
    | ok u =>
      have hdelete : Runs inv (fun w => w.get (name :: path) = some (.file content) ∧ p w)
          (delete conn (temporaryName name) path)
          (fun _ w => w.get (name :: path) = some (.file content) ∧ p w)
          (fun _ w => w.get (name :: path) = some (.file content) ∧ p w) :=
        runs_delete (fun w hw => hinv w hw.2) fun w hw =>
          ⟨by rw [get_put_temporary]; exact hw.1, h.clean w hw.2⟩
      refine Runs.bind hdelete.attempt fun cleaned => ?_
      cases cleaned with
      | ok v => exact runs_pure fun w hw => ⟨⟨content, hw.1, rfl⟩, hw.2⟩
      | error e => exact runs_pure fun w hw => ⟨⟨content, hw.1, rfl⟩, hw.2⟩
    | error e =>
      refine Runs.bind (runs_delete hinv h.clean).attempt fun cleaned => ?_
      cases cleaned with
      | ok v => exact runs_throw fun w hw => hw
      | error e => exact runs_throw fun w hw => hw

/-- What is read back is not larger than what is allowed. -/
theorem runs_readBack_length (hinv : ∀ w, p w → inv w) {q : List String} (maxBytes : ℕ) :
    Runs inv p (readBack conn q maxBytes) (fun found _ => found.length ≤ maxBytes)
      (fun _ _ => True) := by
  have hsize : Runs inv p (do typeImage conn; size conn q) (fun _ w => p w) (fun _ w => p w) :=
    Runs.bind ((runs_reading hinv).mono (fun _ _ hw => hw.2) fun _ _ hw => hw) fun _ =>
      (runs_reading hinv).mono (fun _ _ hw => hw.2) fun _ _ hw => hw
  unfold readBack
  refine Runs.bind ((runs_orRaise hsize).mono (fun _ _ hw => hw) fun _ _ _ => trivial)
    fun size => ?_
  cases size with
  | none => exact runs_throw fun _ _ => trivial
  | some size =>
    dsimp only
    split
    · exact runs_throw fun _ _ => trivial
    · rename_i hbound
      refine Runs.bind ((runs_orRaise (runs_reading hinv)).mono (fun _ _ hw => hw)
        fun _ _ _ => trivial) fun content => ?_
      split
      · exact runs_throw fun _ _ => trivial
      · rename_i hlength
        rw [not_or, not_lt, not_lt] at hbound
        rw [not_not] at hlength
        exact runs_pure fun _ _ => by omega

end Arrivals

section Plans

variable {conn : Connection} {lib : Library} {residue : List UInt8 → List UInt8}
  {inv : Site → Prop} {path : List String} {plan done : List (String × List UInt8)}
  {before w : Site} {copy : AuditedCopy} {expected : List ExpectedRemoteFile}
  {manifest : List UInt8} {read : String → Option (List UInt8)} {maxArtifactSize : ℕ}

/-- The files of an upload are those that were there before, or what is uploaded. -/
structure Faithful (path : List String) (plan : List (String × List UInt8)) (before w : Site) :
    Prop where
  old : ∀ upload ∈ plan, ∀ found, before.get (upload.1 :: path) = some (.file found) →
    w.get (upload.1 :: path) = some (.file found)
  new : ∀ upload ∈ plan, ∀ found, w.get (upload.1 :: path) = some (.file found) →
    before.get (upload.1 :: path) = some (.file found) ∨ found = upload.2

/-- Some of the files have been uploaded or found. -/
def Arrived (lib : Library) (path : List String) (plan : List (String × List UInt8))
    (before : Site) (done : List (String × List UInt8)) (w : Site) : Prop :=
  Faithful path plan before w ∧ ∀ upload ∈ done, There lib path upload.1 upload.2 w

/-- Different files, none of which has the name of another's temporary upload. -/
structure Separate (plan : List (String × List UInt8)) : Prop where
  nodup : (plan.map Prod.fst).Nodup
  temporary : ∀ upload ∈ plan, ∀ other ∈ plan, temporaryName upload.1 ≠ other.1

theorem Faithful.refl : Faithful path plan before before :=
  ⟨fun _ _ _ h => h, fun _ _ _ h => Or.inl h⟩

/-- An entry that is not one of the files is of no importance. -/
theorem Arrived.put_other (h : Arrived lib path plan before done w) (hdone : done ⊆ plan)
    {name : String} (hname : ∀ upload ∈ plan, upload.1 ≠ name)
    (value : Option (Entry (List UInt8))) :
    Arrived lib path plan before done (w.put name path value) := by
  have hget : ∀ upload ∈ plan, (w.put name path value).get (upload.1 :: path) =
      w.get (upload.1 :: path) :=
    fun upload hmem => Site.get_put_of_ne (cons_ne_cons (hname upload hmem))
  refine ⟨⟨fun upload hmem found hfound => ?_, fun upload hmem found hfound => ?_⟩,
    fun upload hmem => ?_⟩
  · rw [hget upload hmem]
    exact h.1.old upload hmem found hfound
  · rw [hget upload hmem] at hfound
    exact h.1.new upload hmem found hfound
  · unfold There
    rw [hget upload (hdone hmem)]
    exact h.2 upload hmem

/-- Each of the files is created with its own content. -/
theorem Arrived.keeps (hseparate : Separate plan) (hdone : done ⊆ plan)
    {upload : String × List UInt8} (hupload : upload ∈ plan) :
    Keeps (Arrived lib path plan before done) path upload.1 upload.2 where
  stable := fun _ _ h => ⟨⟨h.1.old, h.1.new⟩, h.2⟩
  upload := fun w part h => h.put_other hdone
    (fun other hmem => (hseparate.temporary upload hupload other hmem).symm) _
  clean := fun w h => h.put_other hdone
    (fun other hmem => (hseparate.temporary upload hupload other hmem).symm) _
  create := by
    intro w h hnone
    have hget : ∀ other ∈ plan, other ≠ upload →
        (w.put upload.1 path (some (.file upload.2))).get (other.1 :: path) =
          w.get (other.1 :: path) := by
      intro other hother hne
      refine Site.get_put_of_ne (cons_ne_cons fun heq => hne ?_)
      exact List.inj_on_of_nodup_map hseparate.nodup hother hupload heq
    have hself := Site.get_put w upload.1 path (some (.file upload.2))
    refine ⟨⟨fun other hother found hfound => ?_, fun other hother found hfound => ?_⟩,
      fun other hother => ?_⟩
    · by_cases hne : other = upload
      · subst hne
        have hold := h.1.old other hother found hfound
        rw [hnone] at hold
        cases hold
      · rw [hget other hother hne]
        exact h.1.old other hother found hfound
    · by_cases hne : other = upload
      · subst hne
        rcases hself with hnew | hsame
        · rw [hnew] at hfound
          cases hfound
          exact Or.inr rfl
        · rw [hsame, hnone] at hfound
          cases hfound
      · rw [hget other hother hne] at hfound
        exact h.1.new other hother found hfound
    · obtain ⟨found, hfound, hhash⟩ := h.2 other hother
      have hne : other ≠ upload := by
        rintro rfl
        rw [hnone] at hfound
        cases hfound
      exact ⟨found, (hget other (hdone hother) hne).trans hfound, hhash⟩

/-- An artifact under the name that it is uploaded by. -/
def nextUpload (lib : Library) (read : String → Option (List UInt8)) (maxArtifactSize : ℕ)
    (expected : List ExpectedRemoteFile) (artifact : ConfigArtifact) :
    Option (String × List UInt8) :=
  match loadArtifact lib read maxArtifactSize artifact,
    expectedByType expected artifact.artifactType with
  | .ok content, some file => some (file.filename, content)
  | _, _ => none

theorem runs_uploadArtifacts_there (hinv : ∀ w, inv w) (hseparate : Separate plan)
    (hdone : done ⊆ plan) {artifacts : List ConfigArtifact}
    (hplan : ∀ artifact ∈ artifacts, ∀ upload,
      nextUpload lib read maxArtifactSize expected artifact = some upload → upload ∈ plan)
    (transferred : ℕ) :
    Runs inv (Arrived lib path plan before done)
      (uploadArtifacts conn lib residue path read maxArtifactSize expected artifacts transferred)
      (fun _ w => (∀ artifact ∈ artifacts, ∃ upload,
        nextUpload lib read maxArtifactSize expected artifact = some upload ∧
          There lib path upload.1 upload.2 w) ∧ Arrived lib path plan before done w)
      (fun _ _ => True) := by
  induction artifacts generalizing done transferred with
  | nil => exact runs_pure fun w hw => ⟨fun _ hmem => absurd hmem List.not_mem_nil, hw⟩
  | cons artifact rest ih =>
    unfold uploadArtifacts
    split
    · exact runs_throw fun _ _ => trivial
    rename_i content hload
    split
    · exact runs_throw fun _ _ => trivial
    rename_i file hfile
    have hnext : nextUpload lib read maxArtifactSize expected artifact =
        some (file.filename, content) := by
      unfold nextUpload
      rw [hload, hfile]
    have hupload := hplan artifact List.mem_cons_self _ hnext
    have hkeeps := @Arrived.keeps lib path plan done before hseparate hdone _ hupload
    refine Runs.bind ((runs_putImmutable_there (fun w _ => hinv w) hkeeps).mono (fun _ _ hw => hw)
      fun _ _ _ => trivial) fun created => ?_
    have hdone' : (file.filename, content) :: done ⊆ plan := by
      intro upload hmem
      rcases List.mem_cons.mp hmem with rfl | hmem
      · exact hupload
      · exact hdone hmem
    refine ((ih hdone' (fun other hmem => hplan other (List.mem_cons_of_mem _ hmem)) _).weaken
      fun w hw => ⟨hw.2.1, fun upload hmem => ?_⟩).mono ?_ fun _ _ hw => hw
    · rcases List.mem_cons.mp hmem with rfl | hmem
      · exact hw.1
      · exact hw.2.2 upload hmem
    · rintro _ w ⟨hrest, hfaithful, hthere⟩
      refine ⟨fun other hmem => ?_, hfaithful, fun upload hmem =>
        hthere upload (List.mem_cons_of_mem _ hmem)⟩
      rcases List.mem_cons.mp hmem with rfl | hmem
      · exact ⟨_, hnext, hthere _ List.mem_cons_self⟩
      · exact hrest other hmem

/-- The manifest where an upload has returned: it was read and recognised, or it is new. -/
def ManifestArrived (lib : Library) (path : List String) (copy : AuditedCopy)
    (expected : List ExpectedRemoteFile) (manifest : List UInt8) (before w : Site) : Prop :=
  ∃ found, w.get (manifestName :: path) = some (.file found) ∧
    (before.get (manifestName :: path) = some (.file found) ∨ found = manifest) ∧
    ((found.length ≤ maxManifestBytes ∧ manifestMatchesRevision lib found copy.target
        copy.revision copy.artifacts copy.replica.remotePath expected = true) ∨
      ∀ other, before.get (manifestName :: path) ≠ some (.file other))

theorem runs_uploadManifest_there (hinv : ∀ w, inv w) (hseparate : Separate plan)
    (hdone : done ⊆ plan) (hmanifest : (manifestName, manifest) ∈ plan) :
    Runs inv (Arrived lib path plan before done)
      (uploadManifest conn lib residue path copy expected manifest)
      (fun _ w => ManifestArrived lib path copy expected manifest before w ∧
        Arrived lib path plan before done w) (fun _ _ => True) := by
  have hkeeps := @Arrived.keeps lib path plan done before hseparate hdone _ hmanifest
  unfold uploadManifest
  refine Runs.bind ((runs_remoteExists (fun w _ => hinv w) hkeeps.stable).mono (fun _ _ hw => hw)
    fun _ _ _ => trivial) fun found => ?_
  cases found with
  | true =>
    rw [if_pos rfl]
    have hread := Runs.and (@runs_readBack conn inv (Arrived lib path plan before done)
      (manifestName :: path) (fun w _ => hinv w) maxManifestBytes)
      (runs_readBack_length (fun w _ => hinv w) maxManifestBytes)
    refine (Runs.bind (Runs.handle hread fun e => ?_) fun existing => ?_).weaken fun w hw => hw.2
    · cases e with
      | ftp e => exact runs_throw fun _ _ => trivial
      | destination e => exact runs_throw fun _ _ => trivial
      | other => exact runs_throw fun _ _ => trivial
    · split
      · rename_i hmatches
        refine runs_pure fun w hw => ⟨⟨existing, hw.1.1, ?_, Or.inl ⟨hw.2, hmatches⟩⟩, hw.1.2⟩
        exact hw.1.2.1.new _ hmanifest existing hw.1.1
      · exact runs_throw fun _ _ => trivial
  | false =>
    rw [if_neg Bool.false_ne_true]
    refine Runs.weaken (Runs.assume (p := ∀ other,
      before.get (manifestName :: path) ≠ some (.file other)) fun hnew => ?_) fun w hw => ⟨?_, hw.2⟩
    · refine Runs.bind ((runs_putImmutable_there (fun w _ => hinv w) hkeeps).mono
        (fun _ _ hw => hw) fun _ _ _ => trivial) fun created => ?_
      refine runs_pure fun w hw => ⟨?_, hw.2⟩
      obtain ⟨found, hfound, -⟩ := hw.1
      exact ⟨found, hfound, hw.2.1.new _ hmanifest found hfound, Or.inr hnew⟩
    · exact fun other hother => hw.1 rfl other (hw.2.1.old _ hmanifest other hother)

/-- A directory where nothing is takes no file's place. -/
theorem Faithful.mkdir (h : Faithful path plan before w) {name : String} {parent : List String}
    (hnone : w.get (name :: parent) = none) :
    Faithful path plan before (w.put name parent (some .directory)) := by
  refine ⟨fun upload hmem found hfound => ?_, fun upload hmem found hfound => ?_⟩
  · have hold := h.old upload hmem found hfound
    rw [Site.get_put_of_ne]
    · exact hold
    · intro heq
      rw [heq, hnone] at hold
      cases hold
  · by_cases heq : upload.1 :: path = name :: parent
    · rw [heq] at hfound
      rcases Site.get_put w name parent (some .directory) with hnew | hsame
      · rw [hnew] at hfound
        cases hfound
      · rw [hsame, hnone] at hfound
        cases hfound
    · rw [Site.get_put_of_ne heq] at hfound
      exact h.new upload hmem found hfound

/-- What an upload leaves that returns: its files, and no other under their names. -/
theorem runs_uploadFiles_there (hinv : ∀ w, inv w) (hseparate : Separate plan)
    (hplan : ∀ artifact ∈ copy.artifacts, ∀ upload,
      nextUpload lib read maxArtifactSize expected artifact = some upload → upload ∈ plan)
    (hmanifest : (manifestName, manifest) ∈ plan) :
    Runs inv (Faithful path plan before)
      (uploadFiles conn lib residue path read maxArtifactSize copy expected manifest)
      (fun _ w => ManifestArrived lib path copy expected manifest before w ∧
        (∀ artifact ∈ copy.artifacts, ∃ upload,
          nextUpload lib read maxArtifactSize expected artifact = some upload ∧
            There lib path upload.1 upload.2 w) ∧ Faithful path plan before w)
      (fun _ _ => True) := by
  have hmkdirs : Runs inv (Faithful path plan before) (mkdirs conn path)
      (fun _ w => Arrived lib path plan before [] w) (fun _ _ => True) :=
    (runs_mkdirs (fun w _ => hinv w) (fun _ _ hw => ⟨hw.old, hw.new⟩)
      fun w name parent hw hnone => hw.mkdir hnone).mono
        (fun _ _ hw => ⟨hw, fun _ hmem => absurd hmem List.not_mem_nil⟩) fun _ _ _ => trivial
  unfold uploadFiles
  refine Runs.bind (runs_orRaise hmkdirs) fun _ => ?_
  refine Runs.bind (runs_orRaise (runs_uploadArtifacts_there hinv hseparate
    (List.nil_subset _) hplan 0)) fun transferred => ?_
  have huploads :
      copy.artifacts.filterMap (nextUpload lib read maxArtifactSize expected) ⊆ plan := by
    intro upload hmem
    obtain ⟨artifact, hartifact, hnext⟩ := List.mem_filterMap.mp hmem
    exact hplan artifact hartifact upload hnext
  refine (Runs.assume fun hnext : (∀ artifact ∈ copy.artifacts, ∃ upload,
      nextUpload lib read maxArtifactSize expected artifact = some upload) =>
    Runs.bind (runs_orRaise (runs_uploadManifest_there hinv hseparate huploads hmanifest))
      fun bytes => ?_).weaken fun w hw => ⟨?_, hw.2.1, ?_⟩
  · refine runs_pure fun w hw => ⟨hw.1, fun artifact hmem => ?_, hw.2.1⟩
    obtain ⟨upload, hupload⟩ := hnext artifact hmem
    exact ⟨upload, hupload, hw.2.2 upload (List.mem_filterMap.mpr ⟨artifact, hmem, hupload⟩)⟩
  · exact fun artifact hmem => (hw.1 artifact hmem).imp fun _ h => h.1
  · intro upload hmem
    obtain ⟨artifact, hartifact, hsome⟩ := List.mem_filterMap.mp hmem
    obtain ⟨other, hother, hthere⟩ := hw.1 artifact hartifact
    rw [hsome] at hother
    cases hother
    exact hthere

end Plans

section Verdicts

variable {lib : Library} {tree : RemoteTree} {copy : AuditedCopy} {destination : BackupDestination}
  {copies : List AuditedCopy} {reader : FtpReader} {issueLimit : ℕ}

/-- A copy whose files are there as recorded, with a manifest of it. -/
structure Sound (lib : Library) (tree : RemoteTree) (copy : AuditedCopy) : Prop where
  artifacts : ∀ artifact ∈ copy.artifacts, ∃ content,
    tree copy.replica.remotePath (nameOf lib copy artifact) = some content ∧
      content.length = artifact.size ∧ lib.sha256Hex content = artifact.rawHash
  manifest : ∃ content, tree copy.replica.remotePath manifestName = some content ∧
    content.length ≤ maxManifestBytes ∧ manifestMatchesRevision lib content copy.target
      copy.revision copy.artifacts copy.replica.remotePath (artifactFilesOf lib copy) = true

theorem classify_artifact_iff {artifact : ConfigArtifact}
    (htype : artifact.artifactType ≠ "manifest") :
    (classify lib tree copy (expectedFile (nameOf lib copy) artifact)).1 = .ok ↔
      ∃ content, tree copy.replica.remotePath (nameOf lib copy artifact) = some content ∧
        content.length = artifact.size ∧ lib.sha256Hex content = artifact.rawHash := by
  unfold classify expectedFile
  dsimp only
  cases tree copy.replica.remotePath (nameOf lib copy artifact) with
  | none => simp
  | some content =>
    dsimp only
    rw [if_neg htype]
    by_cases hsize : content.length = artifact.size
    · by_cases hhash : lib.sha256Hex content = artifact.rawHash
      · simp [hsize, hhash]
      · simp [hsize, hhash]
    · simp [hsize]

theorem ftpFound_manifest_iff : (ftpFound lib tree copy (manifestFileOf lib copy none)).1 = .ok ↔
    ∃ content, tree copy.replica.remotePath manifestName = some content ∧
      content.length ≤ maxManifestBytes ∧ manifestMatchesRevision lib content copy.target
        copy.revision copy.artifacts copy.replica.remotePath (artifactFilesOf lib copy) = true := by
  have htype : (manifestFileOf lib copy none).artifactType = "manifest" := rfl
  have hname : (manifestFileOf lib copy none).filename = manifestName := rfl
  unfold ftpFound classify
  rw [if_pos htype, hname]
  cases tree copy.replica.remotePath manifestName with
  | none => simp
  | some content =>
    dsimp only
    rw [if_pos htype]
    by_cases hlarge : maxManifestBytes < content.length
    · simp [hlarge]
    · simp [hlarge, Nat.le_of_not_lt hlarge]

theorem mountedFound_manifest_iff :
    (mountedFound lib tree copy (manifestFileOf lib copy none)).1 = .ok ↔
      (ftpFound lib tree copy (manifestFileOf lib copy none)).1 = .ok := by
  have htype : (manifestFileOf lib copy none).artifactType = "manifest" := rfl
  unfold ftpFound mountedFound
  rw [if_pos htype, if_pos htype]
  cases htree : tree copy.replica.remotePath (manifestFileOf lib copy none).filename with
  | none => simp [classify, htree]
  | some content =>
    dsimp only
    by_cases hlarge : maxManifestBytes < content.length
    · simp [hlarge]
    · simp [hlarge]

/-- Either audit finds nothing wrong with a copy exactly when it is sound. -/
theorem foundOutcomes_ok_iff {found : AuditedCopy → ExpectedRemoteFile → FileState × ℕ}
    (huploaded : Uploaded lib destination copy)
    (hfiles : ∀ expected ∈ artifactFilesOf lib copy,
      found copy expected = classify lib tree copy expected)
    (hmanifest : (found copy (manifestFileOf lib copy none)).1 = .ok ↔
      (ftpFound lib tree copy (manifestFileOf lib copy none)).1 = .ok) :
    (∀ outcome ∈ foundOutcomes lib found copy, outcome.state = .ok) ↔ Sound lib tree copy := by
  have houtcomes : (∀ outcome ∈ foundOutcomes lib found copy, outcome.state = .ok) ↔
      (∀ artifact ∈ copy.artifacts,
        (found copy (expectedFile (nameOf lib copy) artifact)).1 = .ok) ∧
      (found copy (manifestFileOf lib copy none)).1 = .ok := by
    unfold foundOutcomes outcomesBy artifactFilesOf
    simp only [List.forall_mem_map, List.forall_mem_append, List.forall_mem_singleton]
  rw [houtcomes, hmanifest, ftpFound_manifest_iff]
  constructor
  · rintro ⟨hartifacts, hthere⟩
    refine ⟨fun artifact hmem => ?_, hthere⟩
    have hok := hartifacts artifact hmem
    rw [hfiles _ (List.mem_map_of_mem hmem)] at hok
    exact (classify_artifact_iff (huploaded.types artifact hmem)).mp hok
  · intro hsound
    refine ⟨fun artifact hmem => ?_, hsound.manifest⟩
    rw [hfiles _ (List.mem_map_of_mem hmem)]
    exact (classify_artifact_iff (huploaded.types artifact hmem)).mpr
      (hsound.artifacts artifact hmem)

theorem reconcileFtpDestination_success_iff (hserves : Serves reader tree)
    (huploaded : ∀ copy ∈ copies, auditable destination copy = true →
      Uploaded lib destination copy) (explicitReplicas : Bool) :
    ∃ summary, reconcileFtpDestination lib (.ok reader) destination explicitReplicas copies
        issueLimit = .ok summary ∧
      (summary.success = true ↔
        ∀ copy ∈ copies, auditable destination copy = true → Sound lib tree copy) := by
  obtain ⟨summary, hsummary, hreport⟩ :=
    @reconcileFtpDestination_eq lib reader tree destination issueLimit hserves copies huploaded
      explicitReplicas
  refine ⟨summary, hsummary, (Classified.of_reported hreport).success.trans ?_⟩
  simp only [List.mem_flatten, List.mem_map, List.mem_filter]
  constructor
  · intro hall copy hmem haudit
    exact (foundOutcomes_ok_iff (huploaded copy hmem haudit)
      (fun expected hexpected => (found_of_mem_artifactFiles (huploaded copy hmem haudit)
        hexpected).1) Iff.rfl).mp fun outcome houtcome =>
          hall outcome ⟨_, ⟨copy, ⟨hmem, haudit⟩, rfl⟩, houtcome⟩
  · rintro hall outcome ⟨-, ⟨copy, ⟨hmem, haudit⟩, rfl⟩, houtcome⟩
    exact (foundOutcomes_ok_iff (huploaded copy hmem haudit)
      (fun expected hexpected => (found_of_mem_artifactFiles (huploaded copy hmem haudit)
        hexpected).1) Iff.rfl).mpr (hall copy hmem haudit) outcome houtcome

theorem reconcileMountedDestination_success_iff (hmounted : destination.protocol.mounted = true)
    (huploaded : ∀ copy ∈ copies, auditable destination copy = true →
      Uploaded lib destination copy) :
    ∃ summary, reconcileMountedDestination lib (.ok (mountOf tree)) destination copies
        issueLimit = .ok summary ∧
      (summary.success = true ↔
        ∀ copy ∈ copies, auditable destination copy = true → Sound lib tree copy) := by
  obtain ⟨summary, hsummary, hreport⟩ :=
    @reconcileMountedDestination_eq lib tree destination issueLimit copies huploaded hmounted
  refine ⟨summary, hsummary, (Classified.of_reported hreport).success.trans ?_⟩
  simp only [List.mem_flatten, List.mem_map, List.mem_filter]
  constructor
  · intro hall copy hmem haudit
    exact (foundOutcomes_ok_iff (huploaded copy hmem haudit)
      (fun expected hexpected => (found_of_mem_artifactFiles (huploaded copy hmem haudit)
        hexpected).2) mountedFound_manifest_iff).mp fun outcome houtcome =>
          hall outcome ⟨_, ⟨copy, ⟨hmem, haudit⟩, rfl⟩, houtcome⟩
  · rintro hall outcome ⟨-, ⟨copy, ⟨hmem, haudit⟩, rfl⟩, houtcome⟩
    exact (foundOutcomes_ok_iff (huploaded copy hmem haudit)
      (fun expected hexpected => (found_of_mem_artifactFiles (huploaded copy hmem haudit)
        hexpected).2) mountedFound_manifest_iff).mpr (hall copy hmem haudit) outcome houtcome

end Verdicts

section Agreement

variable {conn : Connection} {lib : Library} {residue : List UInt8 → List UInt8}
  {read : String → Option (List UInt8)} {destination : BackupDestination}
  {recorded copy audited : AuditedCopy} {expected : List ExpectedRemoteFile}
  {manifest : List UInt8} {before w : Site} {layout deviceDirectory errorCode : String}
  {maxArtifactSize : ℕ}

/-- The files below the recorded paths. -/
def treeOf (w : Site) : RemoteTree := fun directory filename =>
  match w.get (filename :: remoteDirectory directory) with
  | some (.file content) => some content
  | _ => none

theorem treeOf_eq_some {directory filename : String} {content : List UInt8} :
    treeOf w directory filename = some content ↔
      w.get (filename :: remoteDirectory directory) = some (.file content) := by
  unfold treeOf
  split
  · rename_i found hfound
    rw [hfound]
    simp
  · rename_i hnone
    exact ⟨nofun, fun h => absurd h (hnone content)⟩

/-- The rows of a copy that is audited after its upload; the device may have another name now. -/
structure AuditedAs (copy audited : AuditedCopy) : Prop where
  revision : audited.revision = copy.revision
  artifacts : audited.artifacts = copy.artifacts
  path : audited.replica.remotePath = copy.replica.remotePath
  target : ∃ deviceName, audited.target = { copy.target with deviceName := deviceName }

theorem validateRecordedRevisionPath_basePath {nfkd : String → String}
    {destination other : BackupDestination} (h : destination.basePath = other.basePath)
    (revision : ConfigRevision) (deviceId : ℕ) (remotePath errorCode : String) :
    validateRecordedRevisionPath nfkd destination revision deviceId remotePath errorCode =
      validateRecordedRevisionPath nfkd other revision deviceId remotePath errorCode := by
  unfold validateRecordedRevisionPath
  rw [h]

theorem validateRecordedRevisionPath_code {nfkd : String → String} {revision : ConfigRevision}
    {deviceId : ℕ} {remotePath : String} {found : String × String}
    (h : validateRecordedRevisionPath nfkd destination revision deviceId remotePath errorCode =
      .ok found) (other : String) :
    validateRecordedRevisionPath nfkd destination revision deviceId remotePath other =
      .ok found := by
  unfold validateRecordedRevisionPath at h ⊢
  dsimp only at h ⊢
  split at h
  · cases h
  rename_i hvalid
  rw [if_neg hvalid]
  split at h
  · rename_i deviceSegment layout leaf rest hsuffix
    split at h
    · cases h
    rename_i hrest
    rw [if_neg hrest]
    split at h
    · cases h
    rename_i hdevice
    rw [if_neg hdevice]
    split at h
    · cases h
    rename_i hlayout
    rw [if_neg hlayout]
    split at h
    · cases h
    rename_i hshape
    rw [if_neg hshape]
    exact h
  · cases h

/-- What the upload takes for the files of a copy, and the manifest that it would write. -/
theorem uploadFileset_parts
    (h : uploadFileset lib destination recorded = .ok (copy, expected, manifest)) :
    ∃ layout deviceDirectory, validateRecordedRevisionPath lib.nfkd destination copy.revision
        copy.target.deviceId copy.replica.remotePath "REPLICATION_PATH_INVALID" =
          .ok (layout, deviceDirectory) ∧
      manifest = lib.dumps (payloadOf lib copy deviceDirectory) ∧
      expected = artifactFilesOf lib copy ++ [manifestFileOf lib copy (some deviceDirectory)] ∧
      ((artifactFilesOf lib copy).map (fun file => file.filename)).Nodup := by
  unfold uploadFileset at h
  split at h
  · cases h
  split at h
  · cases h
  dsimp only at h
  split at h
  · cases h
  split at h
  · cases h
  rename_i found hpath
  split at h
  · cases h
  rename_i files hfiles
  obtain ⟨rfl, rfl, rfl⟩ := Prod.mk.inj (Except.ok.inj h) |>.imp_right Prod.mk.inj
  exact ⟨_, _, hpath, rfl, expectedFilesOf_ok hfiles⟩

theorem AuditedAs.nameOf_eq (h : AuditedAs copy audited)
    (hpath : validateRecordedRevisionPath lib.nfkd destination copy.revision copy.target.deviceId
      copy.replica.remotePath errorCode = .ok (layout, deviceDirectory)) :
    nameOf lib audited = nameOf lib copy := by
  obtain ⟨deviceName, htarget⟩ := h.target
  unfold nameOf
  rw [h.revision, h.path, htarget]
  exact nameOf_renamed hpath deviceName

theorem AuditedAs.artifactFilesOf_eq (h : AuditedAs copy audited)
    (hpath : validateRecordedRevisionPath lib.nfkd destination copy.revision copy.target.deviceId
      copy.replica.remotePath errorCode = .ok (layout, deviceDirectory)) :
    artifactFilesOf lib audited = artifactFilesOf lib copy := by
  have hnames := h.nameOf_eq hpath
  change audited.artifacts.map (expectedFile (nameOf lib audited)) = _
  rw [hnames, h.artifacts]
  rfl

/-- The name of a device is no part of what is compared. -/
theorem AuditedAs.matches_eq (h : AuditedAs copy audited)
    (hpath : validateRecordedRevisionPath lib.nfkd destination copy.revision copy.target.deviceId
      copy.replica.remotePath errorCode = .ok (layout, deviceDirectory)) (content : List UInt8) :
    manifestMatchesRevision lib content audited.target audited.revision audited.artifacts
        audited.replica.remotePath (artifactFilesOf lib audited) =
      manifestMatchesRevision lib content copy.target copy.revision copy.artifacts
        copy.replica.remotePath (artifactFilesOf lib copy) := by
  obtain ⟨deviceName, htarget⟩ := h.target
  rw [h.artifactFilesOf_eq hpath, h.revision, h.artifacts, h.path, htarget]
  rfl

theorem ne_empty_of_path
    (hpath : validateRecordedRevisionPath lib.nfkd destination copy.revision copy.target.deviceId
      copy.replica.remotePath errorCode = .ok (layout, deviceDirectory)) :
    deviceDirectory ≠ "" := by
  obtain ⟨above, segment, leaf, rest, habove, hparts, -⟩ := exists_parts hpath
  obtain ⟨first, above, rfl⟩ := List.exists_cons_of_ne_nil habove
  refine (properName_remoteDirectory hpath deviceDirectory ?_).1
  unfold remoteDirectory
  rw [hparts]
  simp

/-- A freshly written manifest of a copy is one that an audit accepts. -/
def Recognisable (copy : AuditedCopy) (deviceDirectory : String) (manifest : List UInt8) : Prop :=
  manifest.length ≤ maxManifestBytes ∧ copy.target.deviceName ≠ none ∧
    (deviceDirectory ≠ "backups" ∨
      (remoteDirectory copy.replica.remotePath)[3]? = some "backups")

/-- The files that an upload writes, as far as they can be loaded. -/
def planOf (lib : Library) (read : String → Option (List UInt8)) (maxArtifactSize : ℕ)
    (copy : AuditedCopy) (expected : List ExpectedRemoteFile) (manifest : List UInt8) :
    List (String × List UInt8) :=
  copy.artifacts.filterMap (nextUpload lib read maxArtifactSize expected) ++
    [(manifestName, manifest)]

theorem nextUpload_eq_some {artifact : ConfigArtifact} {upload : String × List UInt8}
    (h : nextUpload lib read maxArtifactSize expected artifact = some upload) :
    loadArtifact lib read maxArtifactSize artifact = .ok upload.2 ∧
      ∃ file, expectedByType expected artifact.artifactType = some file ∧
        upload.1 = file.filename := by
  unfold nextUpload at h
  split at h
  · rename_i content file hload hfile
    cases h
    exact ⟨hload, file, hfile, rfl⟩
  · cases h

theorem ne_manifest (hset : Fileset lib copy expected manifest) {artifact : ConfigArtifact}
    {file : ExpectedRemoteFile} (hmem : artifact ∈ copy.artifacts)
    (hfile : expectedByType expected artifact.artifactType = some file) :
    artifact.artifactType ≠ "manifest" := by
  have hown := hset.expectedByType_eq hmem hfile
  unfold expectedByType at hfile
  have hkept := (List.mem_filter.mp (List.mem_reverse.mp (List.mem_of_find?_eq_some hfile))).2
  rw [hown] at hkept
  exact bne_iff_ne.mp hkept

/-- An artifact is uploaded under its own name, and is no manifest. -/
theorem nextUpload_own (hset : Fileset lib copy expected manifest) {artifact : ConfigArtifact}
    {upload : String × List UInt8} (hmem : artifact ∈ copy.artifacts)
    (h : nextUpload lib read maxArtifactSize expected artifact = some upload) :
    upload.1 = nameOf lib copy artifact ∧ artifact.artifactType ≠ "manifest" := by
  obtain ⟨-, file, hfile, hname⟩ := nextUpload_eq_some h
  refine ⟨?_, ne_manifest hset hmem hfile⟩
  rw [hname, hset.expectedByType_eq hmem hfile]
  rfl

/-- Files with different names that none has with `.part`. -/
structure SeparateFiles (expected : List ExpectedRemoteFile) : Prop where
  nodup : (namesOf expected).Nodup
  temporary : ∀ name ∈ namesOf expected, temporaryName name ∉ namesOf expected

theorem names_planOf (hset : Fileset lib copy expected manifest) :
    ((planOf lib read maxArtifactSize copy expected manifest).map Prod.fst).Sublist
      (namesOf expected) := by
  have hnames : namesOf expected = copy.artifacts.map (nameOf lib copy) ++ [manifestName] := by
    rw [hset.files]
    unfold namesOf artifactFilesOf
    rw [List.map_append, List.map_map]
    rfl
  rw [hnames]
  unfold planOf
  rw [List.map_append]
  refine List.Sublist.append ?_ (List.Sublist.refl _)
  have hall : ∀ artifacts ⊆ copy.artifacts,
      ((artifacts.filterMap (nextUpload lib read maxArtifactSize expected)).map
        Prod.fst).Sublist (artifacts.map (nameOf lib copy)) := by
    intro artifacts
    induction artifacts with
    | nil => exact fun _ => List.Sublist.refl _
    | cons artifact rest ih =>
      intro hsubset
      have hrest := ih fun other hmem => hsubset (List.mem_cons_of_mem _ hmem)
      cases hnext : nextUpload lib read maxArtifactSize expected artifact with
      | none =>
        rw [List.filterMap_cons_none hnext]
        exact hrest.cons _
      | some upload =>
        rw [List.filterMap_cons_some hnext, List.map_cons, List.map_cons,
          (nextUpload_own hset (hsubset List.mem_cons_self) hnext).1]
        exact hrest.cons_cons _
  exact hall copy.artifacts (List.Subset.refl _)

theorem separate_planOf (hset : Fileset lib copy expected manifest)
    (hseparate : SeparateFiles expected) :
    Separate (planOf lib read maxArtifactSize copy expected manifest) := by
  have hsublist := @names_planOf lib read copy expected manifest maxArtifactSize hset
  refine ⟨hseparate.nodup.sublist hsublist, fun upload hupload other hother heq => ?_⟩
  refine hseparate.temporary upload.1 (hsublist.subset (List.mem_map_of_mem hupload)) ?_
  rw [heq]
  exact hsublist.subset (List.mem_map_of_mem hother)

/-- What there is under the name of an artifact has its hash only with its size. -/
def Unforged (lib : Library) (copy : AuditedCopy) (w : Site) : Prop :=
  ∀ artifact ∈ copy.artifacts, ∀ found,
    w.get (nameOf lib copy artifact :: remoteDirectory copy.replica.remotePath) =
      some (.file found) → lib.sha256Hex found = artifact.rawHash → found.length = artifact.size

/-- What an upload leaves that has returned. -/
theorem left_by_upload {r : ReplicationResult} {d : Client Site}
    (htypes : (recorded.artifacts.map (fun artifact => artifact.artifactType)).Nodup)
    (hset : uploadFileset lib destination recorded = .ok (copy, expected, manifest))
    (hseparate : SeparateFiles expected)
    (hreturned : replicateRevisionFtp conn lib residue read destination recorded ⟨before, []⟩ =
      .ok r d) :
    ManifestArrived lib (remoteDirectory copy.replica.remotePath) copy expected manifest before
        d.world ∧
      (∀ artifact ∈ copy.artifacts, ∃ upload,
        nextUpload lib read destination.maxArtifactSize expected artifact =
          some upload ∧
        There lib (remoteDirectory copy.replica.remotePath) upload.1 upload.2 d.world) ∧
      Faithful (remoteDirectory copy.replica.remotePath)
        (planOf lib read destination.maxArtifactSize copy expected manifest) before d.world := by
  have hfiles := (uploadFileset_ok htypes hset).1
  unfold replicateRevisionFtp at hreturned
  rw [hset] at hreturned
  refine (runs_uploadFiles_there (fun _ => trivial) (separate_planOf hfiles hseparate)
    (fun artifact hmem upload hnext => ?_) ?_).result Faithful.refl hreturned
  · exact List.mem_append_left _ (List.mem_filterMap.mpr ⟨artifact, hmem, hnext⟩)
  · exact List.mem_append_right _ (List.mem_singleton_self _)

/-- The artifacts are there as recorded where an upload has returned. -/
theorem artifacts_there {r : ReplicationResult} {d : Client Site}
    (htypes : (recorded.artifacts.map (fun artifact => artifact.artifactType)).Nodup)
    (hset : uploadFileset lib destination recorded = .ok (copy, expected, manifest))
    (hseparate : SeparateFiles expected) (hunforged : Unforged lib copy before)
    (hreturned : replicateRevisionFtp conn lib residue read destination recorded ⟨before, []⟩ =
      .ok r d) {artifact : ConfigArtifact} (hmem : artifact ∈ copy.artifacts) :
    artifact.artifactType ≠ "manifest" ∧ ∃ found,
      d.world.get (nameOf lib copy artifact :: remoteDirectory copy.replica.remotePath) =
        some (.file found) ∧ found.length = artifact.size ∧
        lib.sha256Hex found = artifact.rawHash := by
  obtain ⟨-, hthere, hfaithful⟩ := left_by_upload htypes hset hseparate hreturned
  have hfiles := (uploadFileset_ok htypes hset).1
  obtain ⟨upload, hnext, found, hfound, hhash⟩ := hthere artifact hmem
  obtain ⟨hname, htype⟩ := nextUpload_own hfiles hmem hnext
  obtain ⟨hsize, hraw⟩ := loadArtifact_ok (nextUpload_eq_some hnext).1
  have hplan : upload ∈ planOf lib read destination.maxArtifactSize copy expected manifest :=
    List.mem_append_left _ (List.mem_filterMap.mpr ⟨artifact, hmem, hnext⟩)
  refine ⟨htype, found, by rw [← hname]; exact hfound, ?_, hhash.trans hraw⟩
  rcases hfaithful.new upload hplan found hfound with hold | rfl
  · rw [hname] at hold
    exact hunforged artifact hmem found hold (hhash.trans hraw)
  · exact hsize

/-- The manifest that an upload leaves is one of the copy exactly when it was there already or
could be written so that it is recognised. -/
theorem manifest_sound_iff {r : ReplicationResult} {d : Client Site}
    (htypes : (recorded.artifacts.map (fun artifact => artifact.artifactType)).Nodup)
    (hset : uploadFileset lib destination recorded = .ok (copy, expected, manifest))
    (hpath : validateRecordedRevisionPath lib.nfkd destination copy.revision copy.target.deviceId
      copy.replica.remotePath "REPLICATION_PATH_INVALID" = .ok (layout, deviceDirectory))
    (hseparate : SeparateFiles expected)
    (hjson : ReadsBack lib (payloadOf lib copy deviceDirectory))
    (hmanifest : ∀ artifact ∈ copy.artifacts, artifact.artifactType ≠ "manifest")
    (hreturned : replicateRevisionFtp conn lib residue read destination recorded ⟨before, []⟩ =
      .ok r d) :
    (∃ found, d.world.get (manifestName :: remoteDirectory copy.replica.remotePath) =
        some (.file found) ∧ found.length ≤ maxManifestBytes ∧
        manifestMatchesRevision lib found copy.target copy.revision copy.artifacts
          copy.replica.remotePath (artifactFilesOf lib copy) = true) ↔
      (∃ found, before.get (manifestName :: remoteDirectory copy.replica.remotePath) =
        some (.file found)) ∨ Recognisable copy deviceDirectory manifest := by
  obtain ⟨⟨found, hfound, hold, hknown⟩, -, -⟩ := left_by_upload htypes hset hseparate hreturned
  obtain ⟨hfiles, -⟩ := uploadFileset_ok htypes hset
  obtain ⟨other, directory, hpath', rfl, hexpected, -⟩ := uploadFileset_parts hset
  obtain ⟨rfl, rfl⟩ := Prod.mk.inj (Except.ok.inj (hpath.symm.trans hpath'))
  have hfresh : manifestMatchesRevision lib (lib.dumps (payloadOf lib copy deviceDirectory))
      copy.target copy.revision copy.artifacts copy.replica.remotePath (artifactFilesOf lib copy) =
        true ↔ copy.target.deviceName ≠ none ∧ (deviceDirectory ≠ "backups" ∨
          (remoteDirectory copy.replica.remotePath)[3]? = some "backups") := by
    refine (matches_iff hjson (ne_empty_of_path hpath) rfl hfiles.types hmanifest).trans ?_
    exact and_congr_right fun _ => deviceSegmentOf_iff hpath
  rw [hexpected, matches_expected] at hknown
  rcases hknown with hknown | hnew
  · refine iff_of_true ⟨found, hfound, hknown⟩ ?_
    rcases hold with hold | rfl
    · exact Or.inl ⟨found, hold⟩
    · exact Or.inr ⟨hknown.1, hfresh.mp hknown.2⟩
  · obtain rfl := hold.resolve_left (hnew found)
    constructor
    · rintro ⟨content, hcontent, hsize, hmatches⟩
      rw [hfound] at hcontent
      cases hcontent
      exact Or.inr ⟨hsize, hfresh.mp hmatches⟩
    · rintro (⟨content, hcontent⟩ | hrecognisable)
      · exact absurd hcontent (hnew content)
      · exact ⟨_, hfound, hrecognisable.1, hfresh.mpr hrecognisable.2⟩

/-- The manifest of a copy with a single artifact, in UTF-8. -/
def exampleManifest : List UInt8 :=
  [123, 34, 97, 114, 116, 105, 102, 97, 99, 116, 115, 34, 58, 91, 123, 34, 97, 114, 116, 105,
    102, 97, 99, 116, 95, 116, 121, 112, 101, 34, 58, 34, 114, 117, 110, 110, 105, 110, 103, 34,
    44, 34, 102, 105, 108, 101, 110, 97, 109, 101, 34, 58, 34, 114, 117, 110, 110, 105, 110, 103,
    46, 116, 120, 116, 34, 44, 34, 102, 111, 114, 109, 97, 116, 34, 58, 34, 116, 101, 120, 116,
    34, 44, 34, 112, 114, 105, 109, 97, 114, 121, 34, 58, 116, 114, 117, 101, 44, 34, 115, 104,
    97, 50, 53, 54, 34, 58, 34, 99, 97, 57, 55, 56, 49, 49, 50, 99, 97, 49, 98, 98, 100, 99, 97,
    102, 97, 99, 50, 51, 49, 98, 51, 57, 97, 50, 51, 100, 99, 52, 100, 97, 55, 56, 54, 101, 102,
    102, 56, 49, 52, 55, 99, 52, 101, 55, 50, 98, 57, 56, 48, 55, 55, 56, 53, 97, 102, 101, 101,
    52, 56, 98, 98, 34, 44, 34, 115, 105, 122, 101, 34, 58, 49, 125, 93, 44, 34, 99, 114, 101, 97,
    116, 101, 100, 34, 58, 34, 49, 57, 55, 48, 45, 48, 49, 45, 48, 49, 84, 48, 48, 58, 48, 48, 58,
    48, 48, 43, 48, 48, 58, 48, 48, 34, 44, 34, 100, 101, 118, 105, 99, 101, 95, 100, 105, 114,
    101, 99, 116, 111, 114, 121, 34, 58, 34, 114, 111, 117, 116, 101, 114, 45, 55, 34, 44, 34,
    100, 101, 118, 105, 99, 101, 95, 105, 100, 34, 58, 55, 44, 34, 100, 101, 118, 105, 99, 101,
    95, 110, 97, 109, 101, 34, 58, 34, 114, 111, 117, 116, 101, 114, 34, 44, 34, 100, 114, 105,
    118, 101, 114, 95, 105, 100, 34, 58, 34, 100, 114, 105, 118, 101, 114, 34, 44, 34, 114, 101,
    118, 105, 115, 105, 111, 110, 95, 117, 117, 105, 100, 34, 58, 34, 114, 101, 118, 105, 115,
    105, 111, 110, 45, 49, 34, 44, 34, 115, 99, 104, 101, 109, 97, 34, 58, 49, 125]

/-- A copy of a file with one letter. -/
def exampleUpload : AuditedCopy :=
  { exampleAuditedCopy with
    artifacts := (rowsOf (dottedArtifacts.take 1)).map (fun artifact => { artifact with
      rawHash := "ca978112ca1bbdcafac231b39a23dc4da786eff8147c4e72b9807785afee48bb" }) }

/-- JSON and digests of which only those of one copy are used. -/
def readingLibrary : Library :=
  { exampleLibrary with
    sha256Hex := fun content =>
      if content = exampleManifest then
        "6126a798ad97523039b747d2e5d646d4498fca1c7933328e6c0e79f851f8074a"
      else exampleLibrary.sha256Hex content
    loads := fun content => if content = exampleManifest then
      some (sorted (payloadOf exampleLibrary exampleUpload "router-7")) else none
    dumps := fun _ => exampleManifest }

theorem readsBack_exampleUpload :
    ReadsBack readingLibrary (payloadOf readingLibrary exampleUpload "router-7") := by
  unfold ReadsBack readingLibrary
  dsimp only
  rw [if_pos rfl]
  rfl

theorem exampleUpload_path : validateRecordedRevisionPath readingLibrary.nfkd exampleDestination
    exampleUpload.revision exampleUpload.target.deviceId exampleUpload.replica.remotePath
    "REPLICATION_PATH_INVALID" = .ok ("revisions", "router-7") := by decide +kernel

theorem exampleUpload_files : expectedFilesOf readingLibrary exampleUpload (some "router-7") =
    .ok (artifactFilesOf readingLibrary exampleUpload ++
      [manifestFileOf readingLibrary exampleUpload (some "router-7")]) := by
  have hfiles : (expectedFilesOf readingLibrary exampleUpload (some "router-7")).toOption =
      some (artifactFilesOf readingLibrary exampleUpload ++
        [manifestFileOf readingLibrary exampleUpload (some "router-7")]) := by
    decide +kernel
  cases hfound : expectedFilesOf readingLibrary exampleUpload (some "router-7") with
  | error e =>
    rw [hfound] at hfiles
    cases hfiles
  | ok files =>
    rw [hfound] at hfiles
    rw [Option.some.inj hfiles]

theorem exampleUpload_fileset : uploadFileset readingLibrary exampleDestination exampleUpload =
    .ok (exampleUpload, artifactFilesOf readingLibrary exampleUpload ++
      [manifestFileOf readingLibrary exampleUpload (some "router-7")], exampleManifest) := by
  have hrecorded : exampleUpload.replica.remotePath ≠ "" := by decide
  unfold uploadFileset
  rw [if_neg (by decide), if_neg (by decide), if_neg hrecorded]
  dsimp only
  rw [exampleUpload_path]
  dsimp only
  rw [exampleUpload_files]
  rfl

theorem exampleUpload_returns : ∃ r d,
    replicateRevisionFtp (answering plainDialect) readingLibrary id (fun _ => some [97])
      exampleDestination exampleUpload ⟨emptySite, []⟩ = .ok r d := by
  have hrun : (match replicateRevisionFtp (answering plainDialect) readingLibrary id
      (fun _ => some [97]) exampleDestination exampleUpload ⟨emptySite, []⟩ with
    | .ok _ _ => true
    | .error _ _ => false) = true := by decide +kernel
  cases hreturned : replicateRevisionFtp (answering plainDialect) readingLibrary id
      (fun _ => some [97]) exampleDestination exampleUpload ⟨emptySite, []⟩ with
  | error e d =>
    rw [hreturned] at hrun
    cases hrun
  | ok r d => exact ⟨r, d, rfl⟩

theorem get_emptySite (path : List String) (content : List UInt8) :
    emptySite.get path ≠ some (.file content) := by
  intro h
  unfold Site.get emptySite FileTree.empty at h
  dsimp only at h
  split at h <;> cases h

end Agreement

section Mounts

open MountedDeletion MountedUpload SharedMount Workers

variable {ι : Type} {lib : Library} {destination : BackupDestination}
  {recorded copy audited : AuditedCopy} {expected : List ExpectedRemoteFile}
  {manifest : List UInt8} {layout deviceDirectory : String}
  {job : Job}

/-- The regular files below the recorded paths; nothing else is looked at. -/
def mountedTreeOf (tree : MountedTree) : RemoteTree := fun directory filename =>
  match tree.get (filename :: remoteDirectory directory) with
  | some (.file (.regular content)) => some content
  | _ => none

theorem mountedTreeOf_eq {tree : MountedTree} {directory filename : String} {content : List UInt8}
    (h : tree.get (filename :: remoteDirectory directory) = some (.file (.regular content))) :
    mountedTreeOf tree directory filename = some content := by
  unfold mountedTreeOf
  rw [h]

/-- What an upload to a mount takes for the files of a copy, and the manifest that it writes. -/
theorem mountedFileset_parts
    (h : MountedUpload.uploadFileset lib destination recorded = .ok (copy, expected, manifest)) :
    destination.protocol.mounted = true ∧ ∃ layout deviceDirectory,
      validateRecordedRevisionPath lib.nfkd destination copy.revision copy.target.deviceId
        copy.replica.remotePath "REPLICATION_PATH_INVALID" = .ok (layout, deviceDirectory) ∧
      manifest = lib.dumps (payloadOf lib copy deviceDirectory) ∧
      ((artifactFilesOf lib copy).map (fun file => file.filename)).Nodup := by
  unfold MountedUpload.uploadFileset at h
  split at h
  · cases h
  rename_i hmounted
  split at h
  · cases h
  split at h
  · cases h
  dsimp only at h
  split at h
  · cases h
  split at h
  · cases h
  rename_i found hpath
  split at h
  · cases h
  rename_i files hfiles
  obtain ⟨rfl, rfl, rfl⟩ := Prod.mk.inj (Except.ok.inj h) |>.imp_right Prod.mk.inj
  exact ⟨by simpa using hmounted, _, _, hpath, rfl, (expectedFilesOf_ok hfiles).2⟩

/-- The artifacts and the manifest of a copy where a worker has returned. -/
theorem files_of_finished {w : Share ι} (h : Finished lib True job w)
    (hset : MountedUpload.uploadFileset lib job.destination job.copy =
      .ok (copy, expected, manifest))
    (htypes : (job.copy.artifacts.map (fun artifact => artifact.artifactType)).Nodup) :
    (∀ artifact ∈ copy.artifacts, artifact.artifactType ≠ "manifest" ∧ ∃ found,
      w.tree.get (nameOf lib copy artifact :: remoteDirectory copy.replica.remotePath) =
        some (.file (.regular found)) ∧ found.length = artifact.size ∧
        lib.sha256Hex found = artifact.rawHash) ∧
      ∃ found, w.tree.get (manifestName :: remoteDirectory copy.replica.remotePath) =
        some (.file (.regular found)) ∧ lib.sha256Hex found = lib.sha256Hex manifest := by
  obtain ⟨copy', expected', manifest', hset', hnext⟩ := h.accepted
  rw [hset] at hset'
  obtain ⟨rfl, rfl, rfl⟩ := Prod.mk.inj (Except.ok.inj hset') |>.imp_right Prod.mk.inj
  have hplan : job.plan lib = ⟨remoteDirectory copy.replica.remotePath,
      copy.artifacts.filterMap (fun artifact => (job.next lib expected artifact).toOption) ++
        [(manifestName, manifest)]⟩ := by
    unfold Job.plan
    rw [hset]
  have hknown := h.files
  rw [hplan] at hknown
  obtain ⟨⟨hartifacts, hexpected, hnames⟩, -⟩ := SharedMount.uploadFileset_ok hset
  have hfileset : Fileset lib copy expected manifest := ⟨hexpected, hnames, by rwa [hartifacts]⟩
  constructor
  · intro artifact hmem
    obtain ⟨upload, hupload⟩ := hnext artifact hmem
    obtain ⟨hname, hsize, hhash⟩ := next_ok hset htypes hmem hupload
    obtain ⟨found, hfound, hlength, hdigest⟩ := hknown upload (List.mem_append_left _
      (List.mem_filterMap.mpr ⟨artifact, hmem, by rw [hupload]; rfl⟩)) (Or.inl trivial)
    rw [hname] at hfound
    refine ⟨?_, found, hfound, hlength.trans hsize, hdigest.trans hhash⟩
    unfold Job.next MountedUpload.nextUpload at hupload
    split at hupload
    · cases hupload
    split at hupload
    · cases hupload
    rename_i file hfile
    exact ne_manifest hfileset hmem hfile
  · obtain ⟨found, hfound, -, hdigest⟩ := hknown (manifestName, manifest)
      (List.mem_append_right _ (List.mem_singleton_self _)) (Or.inl trivial)
    exact ⟨found, hfound, hdigest⟩

variable [DecidableEq ι] {fault : Call → UploadFailure → Prop} {jobs : ι → Job}
  {s s' : System ι Call (Share ι) UploadFailure ReplicationResult}

/-- An audit of a mounted copy whose worker has returned finds nothing wrong, whatever the other
workers do and whatever the device is called now, exactly when the manifest that the worker
writes is one that a reader recognises. -/
theorem audit_of_mounted_upload_iff (hbegin : Begin lib jobs s) (hrun : Reaches fault s s')
    (hwrites : WritesSucceed fault) (hagree : Agree fun i => (jobs i).plan lib) {i : ι}
    {r : ReplicationResult} (hreturned : s'.workers i = .returned r)
    (htypes : ((jobs i).copy.artifacts.map (fun artifact => artifact.artifactType)).Nodup)
    (hset : MountedUpload.uploadFileset lib (jobs i).destination (jobs i).copy =
      .ok (copy, expected, manifest))
    (hpath : validateRecordedRevisionPath lib.nfkd (jobs i).destination copy.revision
      copy.target.deviceId copy.replica.remotePath "REPLICATION_PATH_INVALID" =
        .ok (layout, deviceDirectory))
    (hjson : ReadsBack lib (payloadOf lib copy deviceDirectory))
    (hdigest : ∀ found, s'.world.tree.get
      (manifestName :: remoteDirectory copy.replica.remotePath) = some (.file (.regular found)) →
        lib.sha256Hex found = lib.sha256Hex manifest → found = manifest)
    (haudited : AuditedAs copy audited)
    (hauditable : auditable (jobs i).destination audited = true) (issueLimit : ℕ) :
    ∃ summary, reconcileMountedDestination lib (.ok (mountOf (mountedTreeOf s'.world.tree)))
        (jobs i).destination [audited] issueLimit = .ok summary ∧
      (summary.success = true ↔ Recognisable copy deviceDirectory manifest) := by
  obtain ⟨-, hend⟩ := hbegin.reaches True (fun _ => ⟨hwrites, hagree⟩) hrun
  obtain ⟨hthere, found, hfound, hhash⟩ := files_of_finished (hend i r hreturned) hset htypes
  obtain rfl := hdigest found hfound hhash
  obtain ⟨hmounted, other, directory, hpath', hwritten, hnodup⟩ := mountedFileset_parts hset
  obtain ⟨rfl, rfl⟩ := Prod.mk.inj (Except.ok.inj (hpath.symm.trans hpath'))
  obtain ⟨⟨hartifacts, -, -⟩, -⟩ := SharedMount.uploadFileset_ok hset
  obtain ⟨deviceName, htarget⟩ := haudited.target
  have hupload : IntegrityAudit.Uploaded lib (jobs i).destination audited := by
    refine ⟨⟨(layout, deviceDirectory), ?_⟩, ?_, ?_⟩
    · rw [haudited.revision, haudited.path, htarget]
      exact validateRecordedRevisionPath_code hpath _
    · rw [haudited.artifactFilesOf_eq hpath]
      exact hnodup
    · rw [haudited.artifacts]
      exact fun artifact hmem => (hthere artifact hmem).1
  have hmatches : manifestMatchesRevision lib found copy.target copy.revision copy.artifacts
      copy.replica.remotePath (artifactFilesOf lib copy) = true ↔
        copy.target.deviceName ≠ none ∧ (deviceDirectory ≠ "backups" ∨
          (remoteDirectory copy.replica.remotePath)[3]? = some "backups") := by
    rw [hwritten]
    refine (matches_iff hjson (ne_empty_of_path hpath) rfl (by rwa [hartifacts])
      fun artifact hmem => (hthere artifact hmem).1).trans ?_
    exact and_congr_right fun _ => deviceSegmentOf_iff hpath
  obtain ⟨summary, hsummary, hsuccess⟩ := @reconcileMountedDestination_success_iff lib
    (mountedTreeOf s'.world.tree) (jobs i).destination [audited] issueLimit hmounted
    fun other hmem _ => List.mem_singleton.mp hmem ▸ hupload
  refine ⟨summary, hsummary, hsuccess.trans ?_⟩
  constructor
  · intro hall
    obtain ⟨content, hcontent, hsize, hcontents⟩ :=
      (hall audited (List.mem_singleton_self _) hauditable).manifest
    rw [haudited.path, mountedTreeOf_eq hfound] at hcontent
    obtain rfl := Option.some.inj hcontent
    rw [haudited.matches_eq hpath] at hcontents
    exact ⟨hsize, hmatches.mp hcontents⟩
  · rintro ⟨hsize, hrecognised⟩ other hmem -
    rw [List.mem_singleton.mp hmem]
    refine ⟨fun artifact hartifact => ?_, found, ?_, hsize, ?_⟩
    · rw [haudited.artifacts] at hartifact
      obtain ⟨-, content, hcontent, hcontents⟩ := hthere artifact hartifact
      refine ⟨content, ?_, hcontents⟩
      rw [haudited.path, haudited.nameOf_eq hpath]
      exact mountedTreeOf_eq hcontent
    · rw [haudited.path]
      exact mountedTreeOf_eq hfound
    · rw [haudited.matches_eq hpath]
      exact hmatches.mpr hrecognised

/-- Two workers that upload a copy to one mount. -/
def mountedJob : Job where
  cut _ := 0
  read _ := some [97]
  depth := 1
  root := .ok ()
  destination := { exampleDestination with protocol := .nfs }
  copy := exampleUpload

def mountedStart : System Bool Call (Share Bool) UploadFailure ReplicationResult where
  world := ⟨FileTree.empty, fun _ => none⟩
  workers := mountedJob.worker readingLibrary

theorem mountedJob_agree : Agree fun _ : Bool => mountedJob.plan readingLibrary := by
  have hnames : ((mountedJob.plan readingLibrary).files.map Prod.fst).Nodup := by decide +kernel
  intro _ _ p content content' hfirst hsecond
  obtain ⟨name, hmem, hpath⟩ := hfirst
  obtain ⟨name', hmem', hpath'⟩ := hsecond
  obtain rfl : name = name' := (List.cons.inj (hpath.symm.trans hpath')).1
  exact congrArg Prod.snd (List.inj_on_of_nodup_map hnames hmem hmem' rfl)

theorem mountedStart_begin : Begin readingLibrary (fun _ => mountedJob) mountedStart :=
  ⟨fun _ => rfl, fun _ => rfl⟩

theorem eq_of_digest {found : List UInt8}
    (h : readingLibrary.sha256Hex found = readingLibrary.sha256Hex exampleManifest) :
    found = exampleManifest := by
  by_contra hne
  unfold readingLibrary exampleLibrary at h
  dsimp only at h
  rw [if_pos rfl, if_neg hne] at h
  split at h
  · exact absurd h (by decide)
  · exact absurd h (by decide)

theorem mountedJob_path : validateRecordedRevisionPath readingLibrary.nfkd mountedJob.destination
    exampleUpload.revision exampleUpload.target.deviceId exampleUpload.replica.remotePath
    "REPLICATION_PATH_INVALID" = .ok ("revisions", "router-7") :=
  (validateRecordedRevisionPath_basePath rfl _ _ _ _).trans exampleUpload_path

theorem mountedJob_fileset :
    MountedUpload.uploadFileset readingLibrary mountedJob.destination mountedJob.copy =
      .ok (exampleUpload, artifactFilesOf readingLibrary exampleUpload ++
        [manifestFileOf readingLibrary exampleUpload (some "router-7")], exampleManifest) := by
  have hrecorded : exampleUpload.replica.remotePath ≠ "" := by decide
  show MountedUpload.uploadFileset readingLibrary mountedJob.destination exampleUpload = _
  unfold MountedUpload.uploadFileset
  rw [if_neg (by decide), if_neg (by decide), if_neg (by decide), if_neg hrecorded]
  dsimp only
  rw [mountedJob_path]
  dsimp only
  rw [exampleUpload_files]
  rfl

/-- The copy of the first of them, after the device has lost its name. -/
theorem audit_of_mounted_upload_iff_example : ∃ s', Reaches (fun kind _ => kind = .read)
    mountedStart s' ∧ ∃ summary, reconcileMountedDestination readingLibrary
      (.ok (mountOf (mountedTreeOf s'.world.tree))) mountedJob.destination
        [renamed exampleUpload none] 10 = .ok summary ∧
      (summary.success = true ↔ Recognisable exampleUpload "router-7" exampleManifest) := by
  obtain ⟨s', hrun, -, hend⟩ := @reaches_alone Bool Call (Share Bool) UploadFailure
    ReplicationResult (fun kind _ => kind = .read) true _ mountedStart
  have hresult : ((mountedJob.worker readingLibrary true).alone mountedStart.world).1 =
      .ok ⟨"/backups/devices/router-7/revisions/revision-1", 351, 1⟩ := by decide +kernel
  have hreturned : s'.workers true =
      .returned ⟨"/backups/devices/router-7/revisions/revision-1", 351, 1⟩ := by
    have hworker : mountedStart.workers true = mountedJob.worker readingLibrary true := rfl
    rw [hend, hworker, hresult]
  have hwrites : WritesSucceed fun kind (_ : UploadFailure) => kind = Call.read := fun _ => nofun
  have htypes : (mountedJob.copy.artifacts.map (fun artifact => artifact.artifactType)).Nodup := by
    decide
  have haudited : AuditedAs exampleUpload (renamed exampleUpload none) :=
    ⟨rfl, rfl, rfl, none, rfl⟩
  have hauditable : auditable mountedJob.destination (renamed exampleUpload none) = true := by
    decide
  exact ⟨s', hrun, audit_of_mounted_upload_iff mountedStart_begin hrun hwrites mountedJob_agree
    hreturned htypes mountedJob_fileset mountedJob_path readsBack_exampleUpload
    (fun _ _ => eq_of_digest) haudited hauditable 10⟩

end Mounts

end ConfigBackup.AuditedUploads
