import ConfigBackup.PipelineStorage
import ConfigBackup.RecordedPaths

/-!
The names of the files of a copy. A readable name is the stem of the backup, the safe form
of the artifact type except for the primary artifact, and the extension of the stored file.
An upload goes to the name with `.part` first, so names must differ from each other and
from each other's temporary names.
-/

namespace ConfigBackup.RemoteFileNames

open BackupPipeline Calendar DestinationPaths ExceptLoops Models NewestCopies PipelineStorage
  PosixPaths RecordedPaths Replication Repository RestorableBackups Text

def manifestName : String := "_netbox_manifest.json"

/-- The name of the temporary upload of a file. -/
def temporaryName (filename : String) : String := filename ++ ".part"

section Names

variable (nfkd : String → String)

/-- `PurePosixPath(path).name`. -/
def pureName (path : List Char) : List Char := (components path).getLast?.getD []

/-- `PurePosixPath(path).suffixes`, joined. -/
def joinedSuffixes (path : List Char) : List Char :=
  let name := pureName path
  if name.getLast? = some '.' then []
  else (((lstrip (fun c => c == '.') name).splitOn '.').drop 1).flatMap (fun part => '.' :: part)

def artifactFilename (storageKey artifactType : String) : String :=
  let filename := pureName storageKey.toList
  if filename ≠ [] ∧ filename ≠ ['.'] ∧ filename ≠ ['.', '.'] then String.ofList filename
  else artifactType ++ ".bin"

/-- The extension of a readable name. -/
def readableSuffix (artifact : ConfigArtifact) : List Char :=
  let original := artifactFilename artifact.storageKey artifact.artifactType
  let suffix := joinedSuffixes original.toList
  if suffix = [] ∨ 24 < suffix.length ∨ suffix.any (fun c => !(c == '.' || c.isAlphanum)) then
    ".bin".toList
  else suffix

/-- `device_directory_name(artifact_type, 0)[:48] or "artifact"`. -/
def safeType (artifact : ConfigArtifact) : List Char :=
  let safe := (deviceDirectoryName nfkd (some artifact.artifactType) 0).toList.take 48
  if safe = [] then "artifact".toList else safe

def readableArtifactFilename (target : BackupTarget) (revision : ConfigRevision)
    (stemOverride : Option String) (artifact : ConfigArtifact) : String :=
  let own := backupFilenameStem nfkd target.deviceName target.deviceId revision.created
  let stem := match stemOverride with
    | some stem => if stem = "" then own else stem
    | none => own
  if artifact.isPrimary then stem ++ String.ofList (readableSuffix artifact)
  else stem ++ "_" ++ String.ofList (safeType nfkd artifact) ++
    String.ofList (readableSuffix artifact)

/-- `_readable_stem_from_revision_path`. -/
def readableStemFromRevisionPath (target : BackupTarget) (revision : ConfigRevision)
    (revisionPath : String) : Option String :=
  match (pureParts revisionPath.toList).reverse with
  | _ :: second :: third :: fourth :: _ =>
    if third = "backups".toList then
      some (backupFilenameStem nfkd (some (String.ofList fourth)) target.deviceId revision.created)
    else if second = "backups".toList then
      some (backupFilenameStem nfkd (some (String.ofList third)) target.deviceId revision.created)
    else none
  | [_, second, third] =>
    if second = "backups".toList then
      some (backupFilenameStem nfkd (some (String.ofList third)) target.deviceId revision.created)
    else none
  | _ => none

structure ExpectedRemoteFile where
  filename : String
  size : ℕ
  sha256 : String
  artifactType : String
deriving DecidableEq, Repr

/-- The files of the artifacts in `_expected_revision_files`. -/
def expectedArtifactFiles (nameOf : ConfigArtifact → String) (filenames : List String) :
    List ConfigArtifact → Except DestinationError (List ExpectedRemoteFile)
  | [] => .ok []
  | artifact :: rest =>
    if nameOf artifact ∈ filenames then
      .error ⟨"ARTIFACT_NAME_CONFLICT", "Two revision artifacts resolve to the same FTP filename."⟩
    else do
      let others ← expectedArtifactFiles nameOf (nameOf artifact :: filenames) rest
      pure (⟨nameOf artifact, artifact.size, artifact.rawHash, artifact.artifactType⟩ :: others)

end Names

section Expected

variable {nameOf : ConfigArtifact → String} {filenames : List String} {rows : List ConfigArtifact}
  {files : List ExpectedRemoteFile}

def expectedFile (nameOf : ConfigArtifact → String) (artifact : ConfigArtifact) :
    ExpectedRemoteFile where
  filename := nameOf artifact
  size := artifact.size
  sha256 := artifact.rawHash
  artifactType := artifact.artifactType

/-- The files are listed exactly when their names differ. -/
theorem expectedArtifactFiles_eq_ok :
    expectedArtifactFiles nameOf filenames rows = .ok files ↔
      files = rows.map (expectedFile nameOf) ∧ (rows.map nameOf).Nodup ∧
        ∀ artifact ∈ rows, nameOf artifact ∉ filenames := by
  induction rows generalizing filenames files with
  | nil =>
    unfold expectedArtifactFiles
    constructor
    · intro h
      cases h
      simp
    · rintro ⟨rfl, -⟩
      rfl
  | cons artifact rest ih =>
    unfold expectedArtifactFiles
    by_cases hmem : nameOf artifact ∈ filenames
    · rw [if_pos hmem]
      refine iff_of_false (fun h => by cases h) ?_
      rintro ⟨-, -, hfresh⟩
      exact hfresh artifact List.mem_cons_self hmem
    · rw [if_neg hmem]
      constructor
      · intro h
        obtain ⟨others, hothers, hpure⟩ := bind_eq_ok.mp h
        cases hpure
        obtain ⟨rfl, hnodup, hfresh⟩ := ih.mp hothers
        refine ⟨rfl, ?_, ?_⟩
        · rw [List.map_cons, List.nodup_cons]
          refine ⟨?_, hnodup⟩
          intro hdup
          obtain ⟨other, hother, heq⟩ := List.mem_map.mp hdup
          exact hfresh other hother (by rw [heq]; exact List.mem_cons_self)
        · intro other hother
          rcases List.mem_cons.mp hother with rfl | hother
          · exact hmem
          · exact fun h => hfresh other hother (List.mem_cons_of_mem _ h)
      · rintro ⟨rfl, hnodup, hfresh⟩
        rw [List.map_cons, List.nodup_cons] at hnodup
        have hrest : ∀ other ∈ rest, nameOf other ∉ nameOf artifact :: filenames := by
          intro other hother hseen
          rcases List.mem_cons.mp hseen with heq | hseen
          · exact hnodup.1 (List.mem_map.mpr ⟨other, hother, heq⟩)
          · exact hfresh other (List.mem_cons_of_mem _ hother) hseen
        rw [ih.mpr ⟨rfl, hnodup.2, hrest⟩]
        rfl

end Expected

section Separation

/-- Names of files that can be uploaded beside each other and beside the manifest. -/
structure Separate (names : List String) : Prop where
  nodup : names.Nodup
  manifest : manifestName ∉ names
  temporary : ∀ f ∈ manifestName :: names, ∀ g ∈ manifestName :: names, f ≠ temporaryName g

/-- The artifacts can be listed without a conflict, under names that keep apart. -/
def Replicable (nameOf : ConfigArtifact → String) (rows : List ConfigArtifact) : Prop :=
  ∃ files, expectedArtifactFiles nameOf [] rows = .ok files ∧
    Separate (files.map (fun file => file.filename))

variable {nfkd : String → String}

/-- The safe type of one artifact is that of the other and some more, with which the
other's extension goes on; one of the extensions may be followed by `.part`. -/
def Confusable (nfkd : String → String) (a b : ConfigArtifact) : Prop :=
  ∃ more, safeType nfkd a = safeType nfkd b ++ more ∧
    (readableSuffix b = more ++ readableSuffix a ∨
      readableSuffix b ++ ".part".toList = more ++ readableSuffix a ∨
      readableSuffix b = more ++ (readableSuffix a ++ ".part".toList))

theorem head?_readableSuffix (artifact : ConfigArtifact) :
    ∃ rest, readableSuffix artifact = '.' :: rest := by
  unfold readableSuffix
  dsimp only
  split
  · exact ⟨"bin".toList, rfl⟩
  · rename_i h
    rw [not_or] at h
    generalize (artifactFilename artifact.storageKey artifact.artifactType).toList = path at h
    unfold joinedSuffixes at h ⊢
    dsimp only at h ⊢
    split at h
    · exact absurd rfl h.1
    · rename_i hdot
      rw [if_neg hdot]
      cases hpieces : ((lstrip (fun c => c == '.') (pureName path)).splitOn '.').drop 1 with
      | nil =>
        rw [hpieces] at h
        exact absurd rfl h.1
      | cons piece pieces => exact ⟨_, rfl⟩

variable (nfkd) in
/-- The stem of a backup starts with a character that no manifest starts with. -/
theorem head?_backupFilenameStem (deviceName : Option String) {deviceId : ℕ}
    (hid : deviceId < 2 ^ 63) (createdAt : Instant) :
    ∃ c rest, (backupFilenameStem nfkd deviceName deviceId createdAt).toList = c :: rest ∧
      segmentEdge c = false := by
  have hsafe := safeSegment_deviceDirectoryName nfkd deviceName hid
  cases hsegment : (deviceDirectoryName nfkd deviceName deviceId).toList with
  | nil => exact absurd hsegment hsafe.ne_nil
  | cons c rest =>
    have hc : segmentEdge c = false := hsafe.head c (by rw [hsegment]; rfl)
    have hkept : c ∈ rstrip segmentEdge ((c :: rest).take maxBackupDeviceSegmentLength) :=
      mem_rstrip (by simp [maxBackupDeviceSegmentLength]) hc
    have hhead := head?_of_isPrefix ((List.rdropWhile_prefix segmentEdge
      ((c :: rest).take maxBackupDeviceSegmentLength))) (List.ne_nil_of_mem hkept)
    unfold backupFilenameStem
    dsimp only
    rw [hsegment, String.toList_append, String.toList_append, String.toList_ofList]
    cases hrest : rstrip segmentEdge ((c :: rest).take maxBackupDeviceSegmentLength) with
    | nil =>
      rw [hrest] at hkept
      cases hkept
    | cons d kept =>
      unfold rstrip at hrest
      rw [hrest] at hhead
      cases hhead
      exact ⟨c, _, rfl, hc⟩

/-- The stem is that of the revision, or one that a recorded path gives. -/
def IsStem (nfkd : String → String) (target : BackupTarget) (revision : ConfigRevision)
    (stemOverride : Option String) : Prop :=
  stemOverride = none ∨ ∃ deviceName,
    stemOverride = some (backupFilenameStem nfkd deviceName target.deviceId revision.created)

variable {target : BackupTarget} {revision : ConfigRevision} {stemOverride : Option String}

theorem toList_readableArtifactFilename (hid : target.deviceId < 2 ^ 63)
    (hstem : IsStem nfkd target revision stemOverride) :
    ∃ c stem, segmentEdge c = false ∧ ∀ artifact,
      (readableArtifactFilename nfkd target revision stemOverride artifact).toList =
        c :: (stem ++ if artifact.isPrimary then readableSuffix artifact
          else '_' :: (safeType nfkd artifact ++ readableSuffix artifact)) := by
  have hshape : ∀ deviceName, (∀ artifact,
      readableArtifactFilename nfkd target revision stemOverride artifact =
        if artifact.isPrimary then
          backupFilenameStem nfkd deviceName target.deviceId revision.created ++
            String.ofList (readableSuffix artifact)
        else backupFilenameStem nfkd deviceName target.deviceId revision.created ++ "_" ++
          String.ofList (safeType nfkd artifact) ++ String.ofList (readableSuffix artifact)) →
      ∃ c stem, segmentEdge c = false ∧ ∀ artifact,
        (readableArtifactFilename nfkd target revision stemOverride artifact).toList =
          c :: (stem ++ if artifact.isPrimary then readableSuffix artifact
            else '_' :: (safeType nfkd artifact ++ readableSuffix artifact)) := by
    intro deviceName hnames
    obtain ⟨c, stem, hlist, hc⟩ := head?_backupFilenameStem nfkd deviceName hid
      revision.created
    refine ⟨c, stem, hc, ?_⟩
    intro artifact
    rw [hnames]
    split
    · rw [String.toList_append, hlist, String.toList_ofList]
      rfl
    · rw [String.toList_append, String.toList_append, String.toList_append, hlist,
        String.toList_ofList, String.toList_ofList]
      simp
  rcases hstem with rfl | ⟨deviceName, rfl⟩
  · exact hshape target.deviceName fun artifact => rfl
  · refine hshape deviceName fun artifact => ?_
    obtain ⟨c, stem, hlist, -⟩ := head?_backupFilenameStem nfkd deviceName hid
      revision.created
    have hne : backupFilenameStem nfkd deviceName target.deviceId revision.created ≠ "" := by
      intro heq
      rw [heq] at hlist
      cases hlist
    unfold readableArtifactFilename
    dsimp only
    rw [if_neg hne]

theorem append_eq_append_cases {a b c d : List Char} (h : a ++ b = c ++ d) :
    (∃ more, c = a ++ more ∧ b = more ++ d) ∨ ∃ more, a = c ++ more ∧ d = more ++ b :=
  List.append_eq_append_iff.mp h

variable {a b : ConfigArtifact} {name : ConfigArtifact → String} {c : Char} {stem : List Char}

/-- What the names of a revision look like. -/
def Shaped (nfkd : String → String) (name : ConfigArtifact → String) (c : Char)
    (stem : List Char) : Prop :=
  ∀ artifact, (name artifact).toList = c :: (stem ++ if artifact.isPrimary then
    readableSuffix artifact else '_' :: (safeType nfkd artifact ++ readableSuffix artifact))

theorem toList_temporaryName (filename : String) :
    (temporaryName filename).toList = filename.toList ++ ".part".toList :=
  String.toList_append

theorem ne_temporaryName (filename : String) : filename ≠ temporaryName filename := by
  intro heq
  have hlength := congrArg (fun s : String => s.toList.length) heq
  simp only [toList_temporaryName, List.length_append] at hlength
  have hpart : ".part".toList.length = 5 := rfl
  omega

/-- A readable name of a secondary artifact is no extension of the primary one's. -/
theorem ne_of_primary (hname : Shaped nfkd name c stem) (ha : a.isPrimary = true)
    (hb : b.isPrimary = false) (tail tail' : List Char) :
    (name a).toList ++ tail ≠ (name b).toList ++ tail' := by
  intro heq
  rw [hname a, hname b, ha, hb] at heq
  simp only [if_true, Bool.false_eq_true, if_false, List.cons_append, List.append_assoc,
    List.cons.injEq, List.append_cancel_left_eq, true_and] at heq
  obtain ⟨rest, hsuffix⟩ := head?_readableSuffix a
  rw [hsuffix, List.cons_append, List.cons.injEq] at heq
  exact absurd heq.1 (by decide)

/-- Two secondary artifacts clash when one name, with or without `.part`, is the other. -/
theorem confusable_of_eq (hname : Shaped nfkd name c stem) (ha : a.isPrimary = false)
    (hb : b.isPrimary = false)
    (h : name a = name b ∨ name a = temporaryName (name b)) :
    Confusable nfkd a b ∨ Confusable nfkd b a := by
  have hcancel : ∀ tail, (name a).toList = (name b).toList ++ tail →
      safeType nfkd a ++ readableSuffix a = safeType nfkd b ++ (readableSuffix b ++ tail) := by
    intro tail heq
    rw [hname a, hname b, ha, hb] at heq
    simpa only [Bool.false_eq_true, if_false, List.cons_append, List.append_assoc,
      List.cons.injEq, List.append_cancel_left_eq, true_and] using heq
  rcases h with h | h
  · have heq := hcancel [] (by rw [h, List.append_nil])
    rw [List.append_nil] at heq
    rcases append_eq_append_cases heq with ⟨more, hsafe, hsuffix⟩ | ⟨more, hsafe, hsuffix⟩
    · exact Or.inr ⟨more, hsafe, Or.inl hsuffix⟩
    · exact Or.inl ⟨more, hsafe, Or.inl hsuffix⟩
  · have heq := hcancel ".part".toList (by rw [h, toList_temporaryName])
    rcases append_eq_append_cases heq with ⟨more, hsafe, hsuffix⟩ | ⟨more, hsafe, hsuffix⟩
    · exact Or.inr ⟨more, hsafe, Or.inr (Or.inr hsuffix)⟩
    · exact Or.inl ⟨more, hsafe, Or.inr (Or.inl hsuffix)⟩

theorem eq_of_confusable (hname : Shaped nfkd name c stem) (ha : a.isPrimary = false)
    (hb : b.isPrimary = false) (h : Confusable nfkd a b) :
    name a = name b ∨ name a = temporaryName (name b) ∨ name b = temporaryName (name a) := by
  obtain ⟨more, hsafe, hsuffix⟩ := h
  have hlists : ∀ x : ConfigArtifact, x.isPrimary = false → (name x).toList =
      c :: (stem ++ '_' :: (safeType nfkd x ++ readableSuffix x)) := by
    intro x hx
    rw [hname x, hx]
    rfl
  rcases hsuffix with hsuffix | hsuffix | hsuffix
  · left
    rw [← String.toList_inj, hlists a ha, hlists b hb, hsafe, hsuffix, List.append_assoc]
  · right
    left
    rw [← String.toList_inj, toList_temporaryName, hlists a ha, hlists b hb, hsafe,
      List.append_assoc, ← hsuffix]
    simp
  · right
    right
    rw [← String.toList_inj, toList_temporaryName, hlists a ha, hlists b hb, hsafe, hsuffix]
    simp

end Separation

section Committed

variable {nfkd : String → String} {sha256Hex : List UInt8 → String} {driver : Driver}
  {artifacts : List CollectedArtifact} {prepared : List PreparedArtifact}
  {env : PipelineEnvironment} {target : BackupTarget} {revision : ConfigRevision}
  {stemOverride : Option String} {rows : List ConfigArtifact}

/-- The rows that the commit of the prepared artifacts writes, in any order. -/
def RowsOf (env : PipelineEnvironment) (deviceId : ℕ) (prepared : List PreparedArtifact)
    (rows : List ConfigArtifact) : Prop :=
  (rows.map (fun row => (row.artifactType, row.storageKey, row.isPrimary))).Perm
    (prepared.map (fun item =>
      (item.artifact.artifactType, artifactKey env deviceId item, item.isPrimary)))

/-- What the preparation guarantees of the rows. -/
theorem rows_of_prepareArtifacts
    (hprepared : prepareArtifacts sha256Hex driver artifacts = .ok prepared)
    (hrows : RowsOf env target.deviceId prepared rows) :
    (rows.map (fun row => row.artifactType)).Nodup ∧
      (rows.filter (fun row => row.isPrimary)).length = 1 := by
  unfold prepareArtifacts at hprepared
  split at hprepared
  · cases hprepared
  split at hprepared
  · cases hprepared
  split at hprepared
  · cases hprepared
  rename_i htypes hprimary
  rw [not_not] at htypes hprimary
  obtain ⟨hmap, hall⟩ := prepareEach_ok hprepared
  constructor
  · have hperm := (hrows.map Prod.fst).nodup_iff
    rw [List.map_map, List.map_map] at hperm
    refine hperm.mpr ?_
    rw [← hmap, List.map_map] at htypes
    exact htypes
  · have hcount := hrows.countP_eq (fun fields => fields.2.2)
    rw [List.countP_map, List.countP_map, List.countP_eq_length_filter,
      List.countP_eq_length_filter] at hcount
    refine hcount.trans ?_
    rw [← hprimary, ← hmap, List.filter_map, List.length_map]
    congr 1
    exact List.filter_congr (fun item hitem => (hall item hitem).2)

end Committed

/-- The primary artifact and two others, whose names differ by `.part`. -/
def dottedArtifacts : List CollectedArtifact :=
  [⟨"running", "running.txt", [97], "text", true⟩, ⟨"x", "n.a.b.part", [97], "text", false⟩,
    ⟨"x.a", "m.b", [97], "text", false⟩]

def preparedOf (artifacts : List CollectedArtifact) : List PreparedArtifact :=
  artifacts.map (fun artifact => ⟨artifact, "", "", artifact.isPrimary⟩)

def rowsOf (artifacts : List CollectedArtifact) : List ConfigArtifact :=
  (preparedOf artifacts).zipIdx.map (fun (item, n) =>
    newArtifact 1 ⟨item.artifact.artifactType, item.artifact.format,
      artifactKey rollbackBackup 7 item, 1, "", "", item.isPrimary⟩ (n + 1))

end ConfigBackup.RemoteFileNames
