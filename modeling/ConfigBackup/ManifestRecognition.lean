import ConfigBackup.FtpUpload

/-!
Whether a manifest is recognised that has just been built. It is written with its fields in
the order of their names and read back as a value; the device directory in it is the one of
the recorded path, which the reader takes from the path in its own way.
-/

namespace ConfigBackup.ManifestRecognition

open FtpUpload IntegrityAudit Models PosixPaths RecordedPaths RemoteFileNames RevisionFiles

section Fields

/-- The fields of every object in the order of their names. -/
def sorted : JsonValue → JsonValue
  | .null => .null
  | .boolean value => .boolean value
  | .number value => .number value
  | .text value => .text value
  | .array items => .array (sortedItems items)
  | .object fields => .object ((sortedFields fields).insertionSort fun a b => a.1 ≤ b.1)
where
  sortedItems : List JsonValue → List JsonValue
    | [] => []
    | item :: rest => sorted item :: sortedItems rest
  sortedFields : List (String × JsonValue) → List (String × JsonValue)
    | [] => []
    | (name, value) :: rest => (name, sorted value) :: sortedFields rest

/-- A value that is written is read back, with its fields in order. -/
def ReadsBack (lib : Library) (value : JsonValue) : Prop :=
  lib.loads (lib.dumps value) = some (sorted value)

theorem sortedItems_eq (items : List JsonValue) : sorted.sortedItems items = items.map sorted := by
  induction items with
  | nil => rfl
  | cons item rest ih => rw [sorted.sortedItems, ih, List.map_cons]

theorem sortedFields_eq (fields : List (String × JsonValue)) :
    sorted.sortedFields fields = fields.map (fun f => (f.1, sorted f.2)) := by
  induction fields with
  | nil => rfl
  | cons f rest ih =>
    obtain ⟨name, value⟩ := f
    rw [sorted.sortedFields, ih, List.map_cons]

variable {fields : List (String × JsonValue)} {name : String} {value : JsonValue}

/-- A field of an object that names none of them twice. -/
theorem field_eq (hnodup : (fields.map Prod.fst).Nodup) (hmem : (name, value) ∈ fields) :
    field fields name = value := by
  unfold field
  obtain ⟨front, back, rfl⟩ := List.append_of_mem hmem
  rw [List.lookup_eq_some_iff.mpr ⟨front, back, rfl, fun p hp => ?_⟩]
  · rfl
  · rw [List.map_append, List.map_cons, List.nodup_append] at hnodup
    rw [bne_iff_ne]
    exact fun heq => hnodup.2.2 p.1 (List.mem_map_of_mem hp) name List.mem_cons_self heq.symm

/-- The fields of an object that is read back. -/
def readFields (fields : List (String × JsonValue)) : List (String × JsonValue) :=
  (sorted.sortedFields fields).insertionSort fun a b => a.1 ≤ b.1

theorem perm_readFields (fields : List (String × JsonValue)) :
    (readFields fields).Perm (fields.map (fun f => (f.1, sorted f.2))) := by
  unfold readFields
  rw [sortedFields_eq]
  exact List.perm_insertionSort _ _

theorem names_readFields (fields : List (String × JsonValue)) :
    ((readFields fields).map Prod.fst).Perm (fields.map Prod.fst) := by
  have hperm := (perm_readFields fields).map Prod.fst
  rwa [List.map_map] at hperm

theorem field_readFields (hnodup : (fields.map Prod.fst).Nodup) (hmem : (name, value) ∈ fields) :
    field (readFields fields) name = sorted value := by
  refine field_eq ((names_readFields fields).nodup_iff.mpr hnodup) ?_
  exact (perm_readFields fields).mem_iff.mpr (List.mem_map.mpr ⟨_, hmem, rfl⟩)

theorem hasFields_readFields {names : List String} (h : names = fields.map Prod.fst) :
    hasFields (readFields fields) names = true := by
  have hperm := names_readFields fields
  rw [← h] at hperm
  unfold hasFields
  rw [Bool.and_eq_true, List.all_eq_true, List.all_eq_true]
  refine ⟨fun f hf => ?_, fun name hname => ?_⟩
  · rw [List.contains_iff_mem]
    exact hperm.mem_iff.mp (List.mem_map_of_mem hf)
  · obtain ⟨f, hf, rfl⟩ := List.mem_map.mp (hperm.mem_iff.mpr hname)
    exact List.any_eq_true.mpr ⟨f, hf, beq_self_eq_true _⟩

end Fields

section Artifacts

variable {lib : Library} {copy : AuditedCopy} {expected : List ExpectedRemoteFile}
  {manifest : List UInt8}

/-- The fields of an artifact in a manifest. -/
def artifactFields (filename : String) (artifact : ConfigArtifact) : List (String × JsonValue) :=
  [("artifact_type", .text artifact.artifactType), ("format", .text artifact.format),
    ("filename", .text filename), ("size", .number artifact.size),
    ("sha256", .text artifact.rawHash), ("primary", .boolean artifact.isPrimary)]

theorem names_artifactFields (filename : String) (artifact : ConfigArtifact) :
    (artifactFields filename artifact).map Prod.fst =
      ["artifact_type", "format", "filename", "size", "sha256", "primary"] := rfl

/-- An artifact is recognised in the entry that has been written for it. -/
theorem matchesArtifact_sorted (filename : String) (artifact : ConfigArtifact) :
    matchesArtifact (sorted (manifestArtifact filename artifact)) filename artifact = true := by
  have hnodup : ((artifactFields filename artifact).map Prod.fst).Nodup := by
    rw [names_artifactFields]
    decide
  have hread : ∀ name value, (name, value) ∈ artifactFields filename artifact →
      field (readFields (artifactFields filename artifact)) name = sorted value :=
    fun name value hmem => field_readFields hnodup hmem
  have hsorted : sorted (manifestArtifact filename artifact) =
      .object (readFields (artifactFields filename artifact)) := rfl
  unfold matchesArtifact
  rw [hsorted]
  dsimp only
  rw [hasFields_readFields (names_artifactFields filename artifact).symm,
    hread _ _ (List.mem_of_getElem? (i := 0) rfl), hread _ _ (List.mem_of_getElem? (i := 1) rfl),
    hread _ _ (List.mem_of_getElem? (i := 2) rfl), hread _ _ (List.mem_of_getElem? (i := 3) rfl),
    hread _ _ (List.mem_of_getElem? (i := 4) rfl), hread _ _ (List.mem_of_getElem? (i := 5) rfl)]
  simp [sorted, equalsText, equalsNumber]

/-- Each artifact has its own expected file. -/
theorem expectedByType_own {artifact : ConfigArtifact}
    (htypes : (copy.artifacts.map (fun artifact => artifact.artifactType)).Nodup)
    (hmem : artifact ∈ copy.artifacts) (hmanifest : artifact.artifactType ≠ "manifest") :
    expectedByType (artifactFilesOf lib copy) artifact.artifactType =
      some (expectedFile (nameOf lib copy) artifact) := by
  have hown : expectedFile (nameOf lib copy) artifact ∈ artifactFilesOf lib copy :=
    List.mem_map_of_mem hmem
  cases hfound : expectedByType (artifactFilesOf lib copy) artifact.artifactType with
  | none =>
    unfold expectedByType at hfound
    have hnone := List.find?_eq_none.mp hfound _ (List.mem_reverse.mpr
      (List.mem_filter.mpr ⟨hown, bne_iff_ne.mpr hmanifest⟩))
    exact absurd (beq_self_eq_true artifact.artifactType) hnone
  | some file =>
    unfold expectedByType at hfound
    have htype := List.find?_some hfound
    rw [beq_iff_eq] at htype
    have hfile := (List.mem_filter.mp (List.mem_reverse.mp (List.mem_of_find?_eq_some hfound))).1
    obtain ⟨other, hother, rfl⟩ := List.mem_map.mp hfile
    rw [List.inj_on_of_nodup_map htypes hother hmem htype]

theorem matchesArtifacts_own
    (htypes : (copy.artifacts.map (fun artifact => artifact.artifactType)).Nodup)
    (hmanifest : ∀ artifact ∈ copy.artifacts, artifact.artifactType ≠ "manifest")
    {artifacts : List ConfigArtifact} (hartifacts : artifacts ⊆ copy.artifacts) :
    matchesArtifacts (artifactFilesOf lib copy)
      (artifacts.map (fun artifact =>
        sorted (manifestArtifact (nameOf lib copy artifact) artifact))) artifacts = true := by
  induction artifacts with
  | nil => rfl
  | cons artifact rest ih =>
    have hmem := hartifacts List.mem_cons_self
    have hown := @expectedByType_own lib copy artifact htypes hmem (hmanifest artifact hmem)
    unfold expectedByType at hown
    rw [List.map_cons, matchesArtifacts, hown]
    dsimp only
    rw [Bool.and_eq_true]
    exact ⟨matchesArtifact_sorted _ artifact,
      ih fun other hother => hartifacts (List.mem_cons_of_mem _ hother)⟩

end Artifacts

section Manifests

/-- The device directory that a reader takes from a recorded path. -/
def deviceSegmentOf (path : String) : Option (List Char) :=
  match (pureParts path.toList).reverse with
  | _ :: _ :: third :: rest =>
    some (match rest with
      | fourth :: _ => if third = "backups".toList then fourth else third
      | [] => third)
  | _ => none

variable {lib : Library} {copy : AuditedCopy} {target : BackupTarget} {deviceDirectory : String}

/-- The manifest of a copy. -/
def payloadOf (lib : Library) (copy : AuditedCopy) (deviceDirectory : String) : JsonValue :=
  manifestPayload lib copy.target copy.revision copy.artifacts
    (usesReadableFtpLayout copy.replica.remotePath)
    (readableStemFromRevisionPath lib.nfkd copy.target copy.revision copy.replica.remotePath)
    (some deviceDirectory)

/-- The fields of the manifest of a copy. -/
def payloadFields (lib : Library) (copy : AuditedCopy) (deviceDirectory : String) :
    List (String × JsonValue) :=
  [("schema", .number (if usesReadableFtpLayout copy.replica.remotePath then 2 else 1)),
    ("revision_uuid", .text copy.revision.revisionUuid),
    ("device_id", .number copy.target.deviceId),
    ("device_name", (copy.target.deviceName.map JsonValue.text).getD .null),
    ("device_directory", .text deviceDirectory), ("driver_id", .text copy.revision.driverId),
    ("created", .text (isoformat copy.revision.created)),
    ("artifacts", .array (copy.artifacts.map (fun artifact =>
      manifestArtifact (nameOf lib copy artifact) artifact)))]

theorem payloadOf_eq (hdirectory : deviceDirectory ≠ "") :
    payloadOf lib copy deviceDirectory = .object (payloadFields lib copy deviceDirectory) := by
  unfold payloadOf manifestPayload payloadFields
  dsimp only
  rw [if_neg hdirectory]

theorem names_payloadFields : (payloadFields lib copy deviceDirectory).map Prod.fst =
    ["schema", "revision_uuid", "device_id", "device_name", "device_directory", "driver_id",
      "created", "artifacts"] := rfl

/-- A manifest is recognised as long as it names a device, and the reader finds the writer's
device directory in the path. The name of the device is not compared. -/
theorem matches_iff (hjson : ReadsBack lib (payloadOf lib copy deviceDirectory))
    (hdirectory : deviceDirectory ≠ "") (hdevice : target.deviceId = copy.target.deviceId)
    (htypes : (copy.artifacts.map (fun artifact => artifact.artifactType)).Nodup)
    (hmanifest : ∀ artifact ∈ copy.artifacts, artifact.artifactType ≠ "manifest") :
    manifestMatchesRevision lib (lib.dumps (payloadOf lib copy deviceDirectory)) target
        copy.revision copy.artifacts copy.replica.remotePath (artifactFilesOf lib copy) = true ↔
      copy.target.deviceName ≠ none ∧
        deviceSegmentOf copy.replica.remotePath = some deviceDirectory.toList := by
  have hnodup : ((payloadFields lib copy deviceDirectory).map Prod.fst).Nodup := by
    rw [names_payloadFields]
    decide
  have hread : ∀ name value, (name, value) ∈ payloadFields lib copy deviceDirectory →
      field (readFields (payloadFields lib copy deviceDirectory)) name = sorted value :=
    fun name value hmem => field_readFields hnodup hmem
  have hloads : lib.loads (lib.dumps (payloadOf lib copy deviceDirectory)) =
      some (.object (readFields (payloadFields lib copy deviceDirectory))) := by
    rw [hjson, payloadOf_eq hdirectory]
    rfl
  have hartifacts : sorted (.array (copy.artifacts.map (fun artifact =>
      manifestArtifact (nameOf lib copy artifact) artifact))) = .array (copy.artifacts.map
        (fun artifact => sorted (manifestArtifact (nameOf lib copy artifact) artifact))) := by
    rw [sorted, sortedItems_eq, List.map_map]
    rfl
  unfold manifestMatchesRevision deviceSegmentOf
  rw [hloads]
  dsimp only
  rw [hread _ _ (List.mem_of_getElem? (i := 0) rfl), hread _ _ (List.mem_of_getElem? (i := 1) rfl),
    hread _ _ (List.mem_of_getElem? (i := 2) rfl), hread _ _ (List.mem_of_getElem? (i := 3) rfl),
    hread _ _ (List.mem_of_getElem? (i := 4) rfl), hread _ _ (List.mem_of_getElem? (i := 5) rfl),
    hread _ _ (List.mem_of_getElem? (i := 6) rfl), hread _ _ (List.mem_of_getElem? (i := 7) rfl),
    hartifacts]
  dsimp only
  rw [matchesArtifacts_own htypes hmanifest fun _ hmem => hmem,
    hasFields_readFields names_payloadFields.symm]
  have hsegment : ∀ segment : List Char, (equalsText (sorted (.text deviceDirectory))
      (String.ofList segment) = true ↔ segment = deviceDirectory.toList) := by
    intro segment
    unfold sorted equalsText
    rw [beq_iff_eq]
    constructor
    · rintro rfl
      rw [String.toList_ofList]
    · rintro rfl
      rw [String.ofList_toList]
  have hnumber : ∀ number : ℚ, equalsNumber (sorted (.number number)) number = true := by
    intro number
    unfold sorted equalsNumber
    exact beq_self_eq_true number
  have htext : ∀ text : String, equalsText (sorted (.text text)) text = true := by
    intro text
    unfold sorted equalsText
    exact beq_self_eq_true text
  generalize (pureParts copy.replica.remotePath.toList).reverse = parts
  rcases parts with _ | ⟨last, _ | ⟨second, _ | ⟨third, rest⟩⟩⟩
  · exact ⟨nofun, fun h => by cases h.2⟩
  · exact ⟨nofun, fun h => by cases h.2⟩
  · exact ⟨nofun, fun h => by cases h.2⟩
  · dsimp only
    rw [hdevice, hnumber, hnumber, htext, htext, htext, Bool.and_true, Bool.and_true,
      Bool.and_true, Bool.and_true, Bool.and_true, Bool.and_true, Bool.true_and, Bool.and_eq_true,
      hsegment, Option.some_inj]
    refine and_congr_left fun _ => ?_
    cases copy.target.deviceName with
    | none => exact ⟨nofun, fun h => absurd rfl h⟩
    | some deviceName => exact ⟨fun _ => nofun, fun _ => rfl⟩

end Manifests

section Paths

open Calendar DestinationPaths FtpDeletion

variable {nfkd : String → String} {destination : BackupDestination} {revision : ConfigRevision}
  {deviceId : ℕ} {path errorCode : String} {found : String × String}

/-- The parts of an accepted path: above the devices, the device, the layout and what
identifies the revision, which takes two directories in one of the layouts. -/
theorem exists_parts (h : validateRecordedRevisionPath nfkd destination revision deviceId path
      errorCode = .ok found) :
    ∃ (above : List (List Char)) (layout leaf : List Char) (rest : List (List Char)),
      above ≠ [] ∧ pureParts path.toList =
        above ++ "devices".toList :: found.2.toList :: layout :: leaf :: rest ∧
      ((layout = "revisions".toList ∧ rest = []) ∨
        (layout = "backups".toList ∧ (rest = [] ∨ ∃ uuid, rest = [uuid]))) := by
  unfold validateRecordedRevisionPath at h
  dsimp only at h
  split at h
  · cases h
  rename_i hvalid
  rw [not_or, not_not] at hvalid
  have hparts := List.take_append_drop
    ((['/'] :: (pureParts (canonicalBase (relativeBase destination.basePath))).drop 1 ++
      ["devices".toList]).length) (pureParts path.toList)
  rw [hvalid.2] at hparts
  split at h
  · rename_i deviceSegment layout leaf rest hsuffix
    rw [hsuffix] at hparts
    split at h
    · cases h
    split at h
    · cases h
    split at h
    · cases h
    split at h
    · cases h
    rename_i hshape
    obtain rfl := Except.ok.inj h
    refine ⟨['/'] :: (pureParts (canonicalBase (relativeBase destination.basePath))).drop 1,
      layout, leaf, rest, List.cons_ne_nil _ _, ?_, ?_⟩
    · rw [← hparts, String.toList_ofList]
      simp
    · simp only [Bool.not_eq_true', decide_eq_false_iff_not, not_not] at hshape
      rcases hshape with ⟨hlayout, hrest, -⟩ | ⟨hlayout, hrest, -⟩ | ⟨hlayout, hrest, -⟩
      · exact Or.inl ⟨hlayout, hrest⟩
      · exact Or.inr ⟨hlayout, Or.inl hrest⟩
      · exact Or.inr ⟨hlayout, Or.inr ⟨_, hrest⟩⟩
  · cases h

/-- The reader finds the device directory, unless it has the name of the layout's directory and
the revision's lies directly in that one. -/
theorem deviceSegmentOf_iff (h : validateRecordedRevisionPath nfkd destination revision deviceId
      path errorCode = .ok found) :
    deviceSegmentOf path = some found.2.toList ↔
      found.2 ≠ "backups" ∨ (remoteDirectory path)[3]? = some "backups" := by
  obtain ⟨above, layout, leaf, rest, habove, hparts, hshape⟩ := exists_parts h
  obtain ⟨first, above, rfl⟩ := List.exists_cons_of_ne_nil habove
  have hdirectory : remoteDirectory path = ((above ++ "devices".toList :: found.2.toList ::
      layout :: leaf :: rest).map String.ofList).reverse := by
    unfold remoteDirectory
    rw [hparts]
    rfl
  have hname : found.2.toList = "backups".toList ↔ found.2 = "backups" := String.toList_inj
  have hdevices : String.ofList "devices".toList ≠ "backups" := by decide
  have hdifferent : "devices".toList ≠ "backups".toList := by decide
  have hdevice : String.ofList found.2.toList = found.2 := String.ofList_toList
  rw [hdirectory]
  unfold deviceSegmentOf
  rw [hparts]
  generalize "devices".toList = devices at hdevices hdifferent ⊢
  generalize "backups".toList = backups at hname hdifferent hshape ⊢
  generalize found.2.toList = device at hname hdevice ⊢
  have hdirect : (if device = backups then devices else device) = device ↔
      found.2 ≠ "backups" := by
    split
    · rename_i hbackups
      rw [hbackups]
      exact ⟨fun heq => absurd heq hdifferent, fun hne => absurd (hname.mp hbackups) hne⟩
    · rename_i hbackups
      exact ⟨fun _ heq => hbackups (hname.mpr heq), fun _ => rfl⟩
  have hone : (first :: above ++ [devices, device, layout, leaf]).reverse =
      leaf :: layout :: device :: devices :: (first :: above).reverse := by simp
  have hlevel : ((above ++ [devices, device, layout, leaf]).map String.ofList).reverse[3]? =
      some (String.ofList devices) := by simp
  rcases hshape with ⟨-, rfl⟩ | ⟨rfl, rfl | ⟨uuid, rfl⟩⟩
  · rw [hone, hlevel, Option.some_inj, Option.some_inj]
    exact hdirect.trans (or_iff_left hdevices).symm
  · rw [hone, hlevel, Option.some_inj, Option.some_inj]
    exact hdirect.trans (or_iff_left hdevices).symm
  · have htwo : (first :: above ++ [devices, device, layout, leaf, uuid]).reverse =
        uuid :: leaf :: layout :: device :: devices :: (first :: above).reverse := by simp
    have hbelow : ((above ++ [devices, device, layout, leaf, uuid]).map
        String.ofList).reverse[3]? = some (String.ofList device) := by simp
    rw [htwo, hbelow, hdevice, Option.some_inj, Option.some_inj]
    dsimp only
    rw [if_pos rfl]
    exact ⟨fun _ => (em _).symm, fun _ => rfl⟩

theorem backupFilenameStem_ne_empty (deviceName : Option String) (createdAt : Instant) :
    backupFilenameStem nfkd deviceName deviceId createdAt ≠ "" := by
  intro heq
  have hlist := congrArg String.toList heq
  unfold backupFilenameStem at hlist
  simp at hlist

variable {lib : Library} {copy : AuditedCopy}

/-- The copy of a device that has another name now. -/
def renamed (copy : AuditedCopy) (deviceName : Option String) : AuditedCopy :=
  { copy with target := { copy.target with deviceName := deviceName } }

/-- The names of the files of a copy are those of its path. -/
theorem nameOf_renamed (h : validateRecordedRevisionPath nfkd destination copy.revision
      copy.target.deviceId copy.replica.remotePath errorCode = .ok found)
    (deviceName : Option String) : nameOf lib (renamed copy deviceName) = nameOf lib copy := by
  obtain ⟨above, layout, leaf, rest, habove, hparts, hshape⟩ := exists_parts h
  obtain ⟨last, second, third, fourth, tail, hreverse⟩ : ∃ last second third fourth tail,
      (pureParts copy.replica.remotePath.toList).reverse =
        last :: second :: third :: fourth :: tail := by
    rw [hparts]
    rcases hshape with ⟨-, rfl⟩ | ⟨-, rfl | ⟨uuid, rfl⟩⟩ <;> simp
  have hstem : usesReadableFtpLayout copy.replica.remotePath = true →
      ∃ stem, readableStemFromRevisionPath lib.nfkd copy.target copy.revision
        copy.replica.remotePath = some stem ∧ stem ≠ "" := by
    unfold usesReadableFtpLayout readableStemFromRevisionPath
    rw [hreverse]
    dsimp only
    rw [Bool.or_eq_true, beq_iff_eq, beq_iff_eq]
    intro hlayout
    by_cases hthird : third = "backups".toList
    · rw [if_pos hthird]
      exact ⟨_, rfl, backupFilenameStem_ne_empty _ _⟩
    · rw [if_neg hthird, if_pos (hlayout.resolve_right hthird)]
      exact ⟨_, rfl, backupFilenameStem_ne_empty _ _⟩
  funext artifact
  change remoteFilename lib (renamed copy deviceName).target copy.revision
      (usesReadableFtpLayout copy.replica.remotePath) (readableStemFromRevisionPath lib.nfkd
        copy.target copy.revision copy.replica.remotePath) artifact = nameOf lib copy artifact
  unfold nameOf remoteFilename
  split
  · rename_i hreadable
    obtain ⟨stem, hsome, hne⟩ := hstem hreadable
    rw [hsome]
    unfold readableArtifactFilename
    dsimp only
    rw [if_neg hne, if_neg hne]
  · rfl

theorem artifactFilesOf_renamed (h : validateRecordedRevisionPath nfkd destination copy.revision
      copy.target.deviceId copy.replica.remotePath errorCode = .ok found)
    (deviceName : Option String) :
    artifactFilesOf lib (renamed copy deviceName) = artifactFilesOf lib copy := by
  change copy.artifacts.map (expectedFile (nameOf lib (renamed copy deviceName))) = _
  rw [nameOf_renamed h]
  rfl

end Paths

end ConfigBackup.ManifestRecognition
