import ConfigBackup.FtpListings

/-!
The deletion of a copy over FTP: interrupted temporaries, then the artifacts, then the
manifest, then the directory. Every step is read back from the listing of the directory.
-/

namespace ConfigBackup.FtpDeletion

open FileTrees FtpListings FtpServer IntegrityAudit Models NewestCopies PosixPaths RecordedPaths
  RemoteFileNames Replication Requests RevisionFiles

structure DeletedRevisionResult where
  remotePath : String
  expectedFileCount : ℕ
  deletedFileCount : ℕ
  missingFileCount : ℕ
  deletedBytes : ℕ
  directoryRemoved : Bool
  alreadyAbsent : Bool
deriving DecidableEq, Repr

/-- The names of a recorded path from the last one up to the root. -/
def remoteDirectory (remotePath : String) : List String :=
  (((pureParts remotePath.toList).drop 1).map String.ofList).reverse

/-- What is checked before a connection is made: the files that may be deleted. -/
def deletionFileset (lib : Library) (destination : BackupDestination) (copy : AuditedCopy) :
    Except DestinationError (List ExpectedRemoteFile) :=
  if destination.protocol ≠ .ftp then
    .error ⟨"DELETE_PROTOCOL_UNSUPPORTED",
      "Revision deletion is available only for FTP destinations."⟩
  else if destination.enabled = false then
    .error ⟨"DESTINATION_DISABLED",
      "The FTP destination is disabled and no remote file was deleted."⟩
  else if copy.replica.status = .queued ∨ copy.replica.status = .running then
    .error ⟨"DELETE_REPLICA_BUSY", "An active FTP revision transfer cannot be deleted safely."⟩
  else if copy.replica.remoteDeletedAt ≠ none then
    .error ⟨"DELETE_REPLICA_EXPIRED", "The FTP revision copy has already expired."⟩
  else do
    let _ ← validateRecordedRevisionPath lib.nfkd destination copy.revision copy.target.deviceId
      copy.replica.remotePath "DELETE_PATH_INVALID"
    let expected ← expectedFilesOf lib copy none
    let names := expected.map (fun file => file.filename)
    if names.Nodup then
      (names ++ names.map temporaryName).forM validateDirectFilename
      pure expected
    else
      .error ⟨"DELETE_FILESET_INVALID",
        "The FTP revision file set contains duplicate filenames."⟩

section Program

variable (conn : Connection) (path : List String)

/-- `_reject_unknown_revision_entries`. -/
def rejectUnknownRevisionEntries (entries expected : List String) : Ftp Unit :=
  if entries.all expected.contains then pure ()
  else throw (.destination ⟨"DESTINATION_DELETE_CONFLICT",
    "The FTP revision directory contains an unknown file and was not deleted."⟩)

/-- `except ftplib.error_perm`: a permanent error is looked into. -/
def exceptPermanent (command recheck : Ftp Unit) : Ftp Unit := do
  match ← attempt command with
  | .ok () => pure ()
  | .error (.ftp e) => if e.kind = .perm then recheck else throw (.ftp e)
  | .error e => throw e

/-- The error if an entry is still there. -/
def requireAbsentName (entries : Option (List String)) (name : String) (error : DestinationError) :
    Ftp Unit :=
  if (entries.getD []).contains name then throw (.destination error) else pure ()

/-- Delete one entry and read the directory back. A refused deletion of an entry that is gone
is no error. -/
def deleteEntry (accepted : List String) (name : String) (denied failed : String) : Ftp Unit := do
  exceptPermanent (delete conn name path) do
    let afterError ← listRevisionDirectory conn path
    requireAbsentName afterError name ⟨"DESTINATION_DELETE_DENIED", denied⟩
  let afterDelete ← listRevisionDirectory conn path
  rejectUnknownRevisionEntries (afterDelete.getD []) accepted
  requireAbsentName afterDelete name ⟨"DESTINATION_DELETE_FAILED", failed⟩

/-- The loop over the interrupted temporaries. -/
def deleteTemporaries (allowed : List String) : List String → Ftp Unit
  | [] => pure ()
  | name :: rest => do
    deleteEntry conn path allowed name
      "The FTP account could not delete an interrupted temporary file."
      "An interrupted FTP temporary file still exists after deletion."
    deleteTemporaries allowed rest

structure DeletionCounts where
  deleted : ℕ
  missing : ℕ
  bytes : ℕ
deriving DecidableEq, Repr

/-- The loop over the expected files. -/
def deleteExpected (names : List String) :
    List ExpectedRemoteFile → DeletionCounts → Ftp DeletionCounts
  | [], counts => pure counts
  | expected :: rest, counts => do
    let entries ← listRevisionDirectory conn path
    if (entries.getD []).contains expected.filename then
      rejectUnknownRevisionEntries (entries.getD []) names
      deleteEntry conn path names expected.filename
        "The FTP account could not delete an expected revision file."
        "An expected FTP revision file still exists after deletion."
      deleteExpected names rest
        { counts with deleted := counts.deleted + 1, bytes := counts.bytes + expected.size }
    else deleteExpected names rest { counts with missing := counts.missing + 1 }

/-- The error if the directory is still there. -/
def requireAbsentDirectory (entries : Option (List String)) (safeMessage : String) : Ftp Unit :=
  if entries.isSome then
    throw (.destination ⟨"DESTINATION_DIRECTORY_DELETE_FAILED", safeMessage⟩)
  else pure ()

/-- Remove the empty directory, from outside of it. -/
def removeEmptyDirectory : Ftp Unit := do
  exceptPermanent (do cwd conn []; rmd conn path) do
    let afterRmd ← listRevisionDirectory conn path
    requireAbsentDirectory afterRmd "The empty FTP revision directory could not be removed."
  let remaining ← listRevisionDirectory conn path
  requireAbsentDirectory remaining "The FTP revision directory still exists after deletion."

/-- The end of the deletion. -/
def removeDirectory : Ftp Unit := do
  match ← listRevisionDirectory conn path with
  | none => pure ()
  | some remaining =>
    rejectUnknownRevisionEntries remaining []
    if remaining ≠ [] then
      throw (.destination ⟨"DESTINATION_DELETE_INCOMPLETE",
        "The FTP revision directory is not empty after deleting expected files."⟩)
    else removeEmptyDirectory conn path

/-- The manifest comes last. -/
def orderedFiles (expected : List ExpectedRemoteFile) : List ExpectedRemoteFile :=
  expected.filter (fun file => file.filename != manifestName) ++
    expected.filter (fun file => file.filename == manifestName)

/-- `sorted(entries & temporary_names)`. -/
def interrupted (entries temporaries : List String) : List String :=
  (entries.filter temporaries.contains).dedup.insertionSort (fun a b => a ≤ b)

def namesOf (expected : List ExpectedRemoteFile) : List String :=
  expected.map (fun file => file.filename)

def temporariesOf (expected : List ExpectedRemoteFile) : List String :=
  (namesOf expected).map temporaryName

/-- `allowed_entries`. -/
def allowedEntries (expected : List ExpectedRemoteFile) : List String :=
  namesOf expected ++ temporariesOf expected

/-- The deletion of the files of a directory. -/
def deleteFiles (remotePath : String) (expected : List ExpectedRemoteFile) :
    Ftp DeletedRevisionResult := do
  match ← listRevisionDirectory conn path with
  | none => pure ⟨remotePath, expected.length, 0, expected.length, 0, false, true⟩
  | some entries =>
    rejectUnknownRevisionEntries entries (allowedEntries expected)
    deleteTemporaries conn path (allowedEntries expected)
      (interrupted entries (temporariesOf expected))
    let counts ← deleteExpected conn path (namesOf expected) (orderedFiles expected) ⟨0, 0, 0⟩
    removeDirectory conn path
    pure ⟨remotePath, expected.length, counts.deleted, counts.missing, counts.bytes, true, false⟩

/-- `delete_revision_replica_ftp`. -/
def deleteRevisionReplicaFtp (lib : Library) (destination : BackupDestination)
    (copy : AuditedCopy) : Ftp DeletedRevisionResult :=
  match deletionFileset lib destination copy with
  | .error e => throw (.destination e)
  | .ok expected =>
    handle (deleteFiles conn (remoteDirectory copy.replica.remotePath) copy.replica.remotePath
        expected) fun e =>
      match e with
      | .ftp _ => throw (.destination ⟨"DESTINATION_DELETE_FAILED",
          "The FTP revision copy could not be deleted safely."⟩)
      | e => throw e

end Program

section Steps

variable {conn : Connection} {path : List String} {inv p : Site → Prop} {calm : Prop}

/-- An error is raised only where something is not as it should be; `calm` says that
everything is. -/
abbrev Troubled (calm : Prop) (p : Site → Prop) : Failure → Site → Prop := fun _ w => ¬ calm ∧ p w

theorem runs_list (hinv : ∀ w, p w → inv w) (hstable : Stable p) (hreliable : calm → Reliable conn)
    (hinspect : calm → ∀ w, p w → Inspectable conn path w) :
    Runs inv p (listRevisionDirectory conn path) (fun r w => Listed conn path r w ∧ p w)
      (Troubled calm p) := by
  refine (runs_listRevisionDirectory hinv hstable path).mono (fun _ _ hw => hw) ?_
  rintro _ w ⟨hobstructed, hw⟩
  exact ⟨fun hcalm => hobstructed (hreliable hcalm) (hinspect hcalm w hw), hw⟩

theorem runs_requireAbsentName {entries : Option (List String)} {name : String}
    {error : DestinationError} (hcalm : calm → ∀ w, p w → w.get (name :: path) = none) :
    Runs inv (fun w => Listed conn path entries w ∧ p w) (requireAbsentName entries name error)
      (fun _ w => w.get (name :: path) = none ∧ Listed conn path entries w ∧ p w)
      (Troubled calm p) := by
  unfold requireAbsentName
  by_cases hname : name ∈ entries.getD []
  · rw [if_pos (List.contains_iff_mem.mpr hname)]
    refine runs_throw fun w hw => ⟨fun h => ?_, hw.2⟩
    exact Listed.get_ne_none hw.1 hname (hcalm h w hw.2)
  · rw [if_neg (by simpa using hname)]
    exact runs_pure fun w hw => ⟨Listed.get_eq_none hw.1 hname, hw⟩

theorem runs_rejectUnknown {entries : Option (List String)} {accepted : List String}
    (hcalm : calm → ∀ w, p w → ∀ name, w.get (name :: path) ≠ none → name ∈ accepted) :
    Runs inv (fun w => Listed conn path entries w ∧ p w)
      (rejectUnknownRevisionEntries (entries.getD []) accepted)
      (fun _ w => (∀ name ∈ entries.getD [], name ∈ accepted) ∧ Listed conn path entries w ∧ p w)
      (Troubled calm p) := by
  unfold rejectUnknownRevisionEntries
  by_cases hall : ∀ name ∈ entries.getD [], name ∈ accepted
  · rw [if_pos (by simpa using hall)]
    exact runs_pure fun w hw => ⟨hall, hw⟩
  · rw [if_neg (by simpa using hall)]
    refine runs_throw fun w hw => ⟨fun h => hall fun name hname => ?_, hw.2⟩
    exact hcalm h w hw.2 name (Listed.get_ne_none hw.1 hname)

theorem runs_exceptPermanent {m recheck : Ftp Unit} {pre q : Site → Prop}
    (hm : Runs inv pre m (fun _ w => q w) (fun e w => ∃ e', e = .ftp e' ∧ (¬ calm ∧ p w)))
    (hrecheck : ¬ calm → Runs inv p recheck (fun _ w => q w) (Troubled calm p)) :
    Runs inv pre (exceptPermanent m recheck) (fun _ w => q w) (Troubled calm p) := by
  refine Runs.bind hm.attempt fun reply => ?_
  rcases reply with (e | e | _) | -
  · dsimp only
    have hpre : ∀ w, Attempted (fun _ w => q w)
        (fun e w => ∃ e', e = Failure.ftp e' ∧ (¬ calm ∧ p w))
        (Except.error (Failure.ftp e) : Except Failure Unit) w → ¬ calm ∧ p w := by
      rintro w ⟨e', -, hw⟩
      exact hw
    split
    · exact (Runs.assume hrecheck).weaken hpre
    · exact runs_throw hpre
  · refine runs_throw fun w hw => ?_
    obtain ⟨e', he, -⟩ := hw
    cases he
  · refine runs_throw fun w hw => ?_
    obtain ⟨e', he, -⟩ := hw
    cases he
  · exact runs_pure fun w hw => hw

/-- The deletion of an entry takes a file away, or raises. -/
theorem runs_delete {name : String} (hinv : ∀ w, p w → inv w)
    (hreliable : calm → Reliable conn)
    (hdelete : ∀ w content, p w → w.get (name :: path) = some (.file content) →
      p (w.put name path none))
    (hfile : calm → ∀ w, p w → w.get (name :: path) ≠ some .directory) :
    Runs inv (fun w => (calm → w.get (name :: path) ≠ none) ∧ p w) (delete conn name path)
      (fun _ w => w.get (name :: path) = none ∧ p w)
      (fun e w => ∃ e', e = .ftp e' ∧ (¬ calm ∧ p w)) := by
  have hfate : ∀ n, conn.fates n ≠ .answered → ¬ calm :=
    fun n hfate hcalm => hfate (hreliable hcalm n)
  refine runs_command (fun w hw => hinv w hw.2) ?_ ?_ ?_ ?_
  · rintro n w hn ⟨-, hw⟩
    exact ⟨_, rfl, hfate n hn, hw⟩
  · rintro n w hn ⟨-, hw⟩
    refine ⟨_, rfl, hfate n hn, ?_⟩
    split
    · rename_i content hentry
      exact hdelete w content hw hentry
    · exact hw
    · exact hw
  · rintro w a ⟨-, hw⟩ hok
    split at hok
    · rename_i content hentry
      have hadmits : w.tree.Admits name path none := by
        refine FileTree.Admits.leaf (w.tree.closed name path ?_) ?_
        · rw [show w.tree.get (name :: path) = some (.file content) from hentry]
          rfl
        · rw [show w.tree.get (name :: path) = some (.file content) from hentry]
          simp
      exact ⟨Site.get_put_self (Site.properName (by rw [hentry]; simp)) hadmits,
        hdelete w content hw hentry⟩
    · cases hok
    · cases hok
  · rintro w e ⟨hthere, hw⟩ herror
    split at herror
    · cases herror
    · rename_i hentry
      exact ⟨_, rfl, fun hcalm => hfile hcalm w hw hentry, hw⟩
    · rename_i hentry
      exact ⟨_, rfl, fun hcalm => hthere hcalm hentry, hw⟩

theorem runs_deleteEntry {accepted : List String} {name denied failed : String}
    (hinv : ∀ w, p w → inv w) (hstable : Stable p) (hreliable : calm → Reliable conn)
    (hdelete : ∀ w content, p w → w.get (name :: path) = some (.file content) →
      p (w.put name path none))
    (hcalm : calm → ∀ w, p w → Inspectable conn path w ∧
      (∀ name, w.get (name :: path) ≠ none → name ∈ accepted) ∧
      w.get (name :: path) ≠ some .directory) :
    Runs inv (fun w => (calm → w.get (name :: path) ≠ none) ∧ p w)
      (deleteEntry conn path accepted name denied failed)
      (fun _ w => w.get (name :: path) = none ∧ p w) (Troubled calm p) := by
  have hinspect : calm → ∀ w, p w → Inspectable conn path w := fun h w hw => (hcalm h w hw).1
  have hgone : Stable (fun w => (calm → w.get (name :: path) = none) ∧ p w) :=
    fun w other hw => ⟨hw.1, hstable w other hw.2⟩
  have hreply : Runs inv (fun w => (calm → w.get (name :: path) ≠ none) ∧ p w)
      (exceptPermanent (delete conn name path) do
        let afterError ← listRevisionDirectory conn path
        requireAbsentName afterError name ⟨"DESTINATION_DELETE_DENIED", denied⟩)
      (fun _ w => (calm → w.get (name :: path) = none) ∧ p w) (Troubled calm p) := by
    refine runs_exceptPermanent ((runs_delete hinv hreliable hdelete
      fun h w hw => (hcalm h w hw).2.2).mono (fun _ w hw => ⟨fun _ => hw.1, hw.2⟩)
        (fun _ _ hw => hw)) fun htrouble => ?_
    refine Runs.bind (runs_list hinv hstable hreliable hinspect) fun entries => ?_
    refine (runs_requireAbsentName fun h => absurd h htrouble).mono ?_ (fun _ _ hw => hw)
    exact fun _ w hw => ⟨fun _ => hw.1, hw.2.2⟩
  have hlist := @runs_list conn path inv (fun w => (calm → w.get (name :: path) = none) ∧ p w) calm
    (fun w hw => hinv w hw.2) hgone hreliable fun h w hw => hinspect h w hw.2
  have hafter : Runs inv (fun w => (calm → w.get (name :: path) = none) ∧ p w)
      (do
        let afterDelete ← listRevisionDirectory conn path
        rejectUnknownRevisionEntries (afterDelete.getD []) accepted
        requireAbsentName afterDelete name ⟨"DESTINATION_DELETE_FAILED", failed⟩)
      (fun _ w => w.get (name :: path) = none ∧ p w) (Troubled calm p) := by
    refine Runs.bind (hlist.mono (fun _ _ hw => hw) fun _ w hw => ⟨hw.1, hw.2.2⟩) fun entries => ?_
    refine Runs.bind ((runs_rejectUnknown fun h w hw => (hcalm h w hw.2).2.1).mono
      (fun _ _ hw => hw) fun _ w hw => ⟨hw.1, hw.2.2⟩) fun _ => ?_
    refine (((runs_requireAbsentName fun h w hw => hw.1 h).weaken fun w hw => hw.2).mono ?_ ?_)
    · exact fun _ w hw => ⟨hw.1, hw.2.2.2⟩
    · exact fun _ w hw => ⟨hw.1, hw.2.2⟩
  exact Runs.bind hreply fun _ => hafter

theorem cons_ne_cons {name other : String} (h : other ≠ name) : other :: path ≠ name :: path :=
  fun heq => h (List.cons.inj heq).1

theorem runs_deleteTemporaries {allowed names : List String} (hinv : ∀ w, p w → inv w)
    (hstable : Stable p) (hreliable : calm → Reliable conn) (hnodup : names.Nodup)
    (hdelete : ∀ name ∈ names, ∀ w content, p w → w.get (name :: path) = some (.file content) →
      p (w.put name path none))
    (hcalm : calm → ∀ w, p w → Inspectable conn path w ∧
      (∀ name, w.get (name :: path) ≠ none → name ∈ allowed) ∧
      ∀ name ∈ names, w.get (name :: path) ≠ some .directory) :
    Runs inv (fun w => (calm → ∀ name ∈ names, w.get (name :: path) ≠ none) ∧ p w)
      (deleteTemporaries conn path allowed names)
      (fun _ w => (∀ name ∈ names, w.get (name :: path) = none) ∧ p w) (Troubled calm p) := by
  induction names generalizing p with
  | nil => exact runs_pure fun w hw => ⟨nofun, hw.2⟩
  | cons name rest ih =>
    obtain ⟨hname, hrest⟩ := List.nodup_cons.mp hnodup
    have hother : ∀ other ∈ rest, other ≠ name := fun other hother heq => hname (heq ▸ hother)
    have hstep := @runs_deleteEntry conn path inv
      (fun w => (calm → ∀ other ∈ rest, w.get (other :: path) ≠ none) ∧ p w) calm allowed name
      "The FTP account could not delete an interrupted temporary file."
      "An interrupted FTP temporary file still exists after deletion."
      (fun w hw => hinv w hw.2) (fun w other hw => ⟨hw.1, hstable w other hw.2⟩) hreliable
      (fun w content hw hentry => by
        refine ⟨fun h other hmem => ?_, hdelete name List.mem_cons_self w content hw.2 hentry⟩
        rw [Site.get_put_of_ne (cons_ne_cons (hother other hmem))]
        exact hw.1 h other hmem)
      (fun h w hw => ⟨(hcalm h w hw.2).1, (hcalm h w hw.2).2.1,
        (hcalm h w hw.2).2.2 name List.mem_cons_self⟩)
    have hloop := @ih (fun w => w.get (name :: path) = none ∧ p w) (fun w hw => hinv w hw.2)
      (fun w other hw => ⟨hw.1, hstable w other hw.2⟩) hrest
      (fun other hmem w content hw hentry => by
        refine ⟨?_, hdelete other (List.mem_cons_of_mem _ hmem) w content hw.2 hentry⟩
        rw [Site.get_put_of_ne (cons_ne_cons (hother other hmem).symm)]
        exact hw.1)
      (fun h w hw => ⟨(hcalm h w hw.2).1, (hcalm h w hw.2).2.1, fun other hmem =>
        (hcalm h w hw.2).2.2 other (List.mem_cons_of_mem _ hmem)⟩)
    refine Runs.bind ((hstep.weaken ?_).mono (fun _ _ hw => hw) fun _ w hw => ⟨hw.1, hw.2.2⟩)
      fun _ => (hloop.weaken fun w hw => ⟨hw.2.1, hw.1, hw.2.2⟩).mono ?_ fun _ w hw =>
        ⟨hw.1, hw.2.2⟩
    · exact fun w hw => ⟨fun h => hw.1 h name List.mem_cons_self,
        fun h other hmem => hw.1 h other (List.mem_cons_of_mem _ hmem), hw.2⟩
    · rintro _ w ⟨hgone, hself, hw⟩
      exact ⟨fun other hmem => (List.mem_cons.mp hmem).elim (fun heq => heq ▸ hself) (hgone other),
        hw⟩

/-- The counts after some files, of which those that are present are deleted. -/
def DeletionCounts.after (counts : DeletionCounts) (present : String → Bool)
    (files : List ExpectedRemoteFile) : DeletionCounts where
  deleted := counts.deleted + files.countP (fun file => present file.filename)
  missing := counts.missing + files.countP (fun file => !present file.filename)
  bytes := counts.bytes +
    ((files.filter (fun file => present file.filename)).map (fun file => file.size)).sum

theorem runs_deleteExpected {names : List String} {files : List ExpectedRemoteFile}
    {present : String → Bool} (hinv : ∀ w, p w → inv w) (hstable : Stable p)
    (hreliable : calm → Reliable conn) (hnodup : (files.map (fun file => file.filename)).Nodup)
    (hdelete : ∀ file ∈ files, ∀ w content, p w →
      w.get (file.filename :: path) = some (.file content) → p (w.put file.filename path none))
    (hcalm : calm → ∀ w, p w → Inspectable conn path w ∧
      (∀ name, w.get (name :: path) ≠ none → name ∈ names) ∧
      ∀ file ∈ files, w.get (file.filename :: path) ≠ some .directory)
    (counts : DeletionCounts) :
    Runs inv (fun w => (calm → ∀ file ∈ files,
        (w.get (file.filename :: path) ≠ none ↔ present file.filename = true)) ∧ p w)
      (deleteExpected conn path names files counts)
      (fun result w => (∀ file ∈ files, w.get (file.filename :: path) = none) ∧
        (calm → result = counts.after present files) ∧ p w) (Troubled calm p) := by
  induction files generalizing p counts with
  | nil =>
    refine runs_pure fun w hw => ⟨nofun, fun _ => ?_, hw.2⟩
    simp [DeletionCounts.after]
  | cons file rest ih =>
    rw [List.map_cons, List.nodup_cons] at hnodup
    obtain ⟨hname, hrest⟩ := hnodup
    have hother : ∀ other ∈ rest, other.filename ≠ file.filename :=
      fun other hmem heq => hname (heq ▸ List.mem_map_of_mem hmem)
    -- the rest of the loop, from a directory without the file
    have hloop : ∀ (gone : Bool) (counts : DeletionCounts), Runs inv
        (fun w => w.get (file.filename :: path) = none ∧
          (calm → present file.filename = !gone) ∧ (calm → ∀ other ∈ rest,
            (w.get (other.filename :: path) ≠ none ↔ present other.filename = true)) ∧ p w)
        (deleteExpected conn path names rest counts)
        (fun result w => (∀ other ∈ file :: rest, w.get (other.filename :: path) = none) ∧
          (calm → present file.filename = !gone) ∧ (calm → result = counts.after present rest) ∧
          p w) (Troubled calm p) := by
      intro gone counts
      have hih := @ih (fun w => w.get (file.filename :: path) = none ∧
          (calm → present file.filename = !gone) ∧ p w) (fun w hw => hinv w hw.2.2)
        (fun w other hw => ⟨hw.1, hw.2.1, hstable w other hw.2.2⟩) hrest
        (fun other hmem w content hw hentry => by
          refine ⟨?_, hw.2.1, hdelete other (List.mem_cons_of_mem _ hmem) w content hw.2.2 hentry⟩
          rw [Site.get_put_of_ne (cons_ne_cons (hother other hmem).symm)]
          exact hw.1)
        (fun h w hw => ⟨(hcalm h w hw.2.2).1, (hcalm h w hw.2.2).2.1, fun other hmem =>
          (hcalm h w hw.2.2).2.2 other (List.mem_cons_of_mem _ hmem)⟩) counts
      refine (hih.weaken fun w hw => ⟨hw.2.2.1, hw.1, hw.2.1, hw.2.2.2⟩).mono ?_
        fun _ w hw => ⟨hw.1, hw.2.2.2⟩
      rintro result w ⟨hgone, hresult, hself, hpresent, hw⟩
      refine ⟨fun other hmem => ?_, hpresent, hresult, hw⟩
      rcases List.mem_cons.mp hmem with rfl | hmem
      · exact hself
      · exact hgone other hmem
    unfold deleteExpected
    have hlist := @runs_list conn path inv (fun w => (calm → ∀ other ∈ file :: rest,
        (w.get (other.filename :: path) ≠ none ↔ present other.filename = true)) ∧ p w) calm
      (fun w hw => hinv w hw.2) (fun w other hw => ⟨hw.1, hstable w other hw.2⟩) hreliable
      fun h w hw => (hcalm h w hw.2).1
    refine Runs.bind (hlist.mono (fun _ _ hw => hw) fun _ w hw => ⟨hw.1, hw.2.2⟩) fun entries => ?_
    by_cases hfound : file.filename ∈ entries.getD []
    · rw [if_pos (List.contains_iff_mem.mpr hfound)]
      refine Runs.bind ((runs_rejectUnknown fun h w hw => (hcalm h w hw.2).2.1).mono
        (fun _ _ hw => hw) fun _ w hw => ⟨hw.1, hw.2.2⟩) fun _ => ?_
      have hstep := @runs_deleteEntry conn path inv (fun w => (calm → present file.filename = !false) ∧
          (calm → ∀ other ∈ rest,
            (w.get (other.filename :: path) ≠ none ↔ present other.filename = true)) ∧ p w) calm
        names file.filename "The FTP account could not delete an expected revision file."
        "An expected FTP revision file still exists after deletion."
        (fun w hw => hinv w hw.2.2) (fun w other hw => ⟨hw.1, hw.2.1, hstable w other hw.2.2⟩)
        hreliable
        (fun w content hw hentry => by
          refine ⟨hw.1, fun h other hmem => ?_,
            hdelete file List.mem_cons_self w content hw.2.2 hentry⟩
          rw [Site.get_put_of_ne (cons_ne_cons (hother other hmem))]
          exact hw.2.1 h other hmem)
        (fun h w hw => ⟨(hcalm h w hw.2.2).1, (hcalm h w hw.2.2).2.1,
          (hcalm h w hw.2.2).2.2 file List.mem_cons_self⟩)
      refine Runs.bind ((hstep.weaken ?_).mono (fun _ _ hw => hw)
        fun _ w hw => ⟨hw.1, hw.2.2.2⟩) fun _ => (hloop false _).mono ?_ fun _ _ hw => hw
      · rintro w ⟨-, hlisted, hpresent, hw⟩
        have hthere := Listed.get_ne_none hlisted hfound
        exact ⟨fun _ => hthere, fun h => (hpresent h file List.mem_cons_self).mp hthere,
          fun h other hmem => hpresent h other (List.mem_cons_of_mem _ hmem), hw⟩
      · rintro result w ⟨hgone, hpresent, hresult, hw⟩
        refine ⟨hgone, fun h => ?_, hw⟩
        rw [hresult h]
        simp [DeletionCounts.after, hpresent h, Nat.add_assoc, Nat.add_comm, Nat.add_left_comm]
    · rw [if_neg (by simpa using hfound)]
      refine ((hloop true _).weaken ?_).mono ?_ fun _ _ hw => hw
      · rintro w ⟨hlisted, hpresent, hw⟩
        have hnone := Listed.get_eq_none hlisted hfound
        refine ⟨hnone, fun h => ?_, fun h other hmem =>
          hpresent h other (List.mem_cons_of_mem _ hmem), hw⟩
        rw [Bool.not_true, ← Bool.not_eq_true]
        exact fun htrue => (hpresent h file List.mem_cons_self).mpr htrue hnone
      · rintro result w ⟨hgone, hpresent, hresult, hw⟩
        refine ⟨hgone, fun h => ?_, hw⟩
        rw [hresult h]
        simp [DeletionCounts.after, hpresent h, Nat.add_assoc, Nat.add_comm]

/-- The removal of a directory takes it away when it is empty, or raises. -/
theorem runs_rmd (hinv : ∀ w, p w → inv w) (hstable : Stable p) (hreliable : calm → Reliable conn)
    (hrmd : ∀ name parent w, path = name :: parent → p w → w.get path = some .directory →
      w.tree.names path = [] → p (w.put name parent none))
    (hempty : calm → ∀ w, p w → path ≠ [] ∧ w.tree.names path = []) :
    Runs inv (fun w => (calm → w.get path = some .directory) ∧ p w) (do cwd conn []; rmd conn path)
      (fun _ w => (calm → w.get path = none) ∧ p w)
      (fun e w => ∃ e', e = .ftp e' ∧ (¬ calm ∧ p w)) := by
  have hfate : ∀ n, conn.fates n ≠ .answered → ¬ calm :=
    fun n hfate hcalm => hfate (hreliable hcalm n)
  have hcwd := @runs_cwd conn inv (fun w => (calm → w.get path = some .directory) ∧ p w) []
    (fun w hw => hinv w hw.2) (fun w other hw => ⟨hw.1, hstable w other hw.2⟩)
  refine Runs.bind (hcwd.mono (fun _ w hw => hw.2.2) ?_) fun _ => ?_
  · rintro _ w ⟨e, rfl, hfailed, hw⟩
    exact ⟨_, rfl, fun h => (hfailed.reliable (hreliable h)).1 w.tree.root, hw.2⟩
  · refine runs_command (fun w hw => hinv w hw.2) ?_ ?_ ?_ ?_
    · rintro n w hn ⟨-, hw⟩
      exact ⟨_, rfl, hfate n hn, hw⟩
    · rintro n w hn ⟨-, hw⟩
      refine ⟨_, rfl, hfate n hn, ?_⟩
      split
      · rename_i name parent hentry
        split
        · rename_i hnames
          exact hrmd name parent w rfl hw hentry hnames
        · exact hw
      · exact hw
      · exact hw
    · rintro w a ⟨-, hw⟩ hok
      split at hok
      · rename_i name parent hentry
        split at hok
        · rename_i hnames
          rw [if_pos hnames]
          have hparent := w.tree.closed name parent (by
            rw [show w.tree.get (name :: parent) = some .directory from hentry]
            rfl)
          refine ⟨fun _ => ?_, hrmd name parent w rfl hw hentry hnames⟩
          exact Site.get_put_self (Site.properName (by rw [hentry]; simp))
            ⟨hparent, Or.inr hnames⟩
        · cases hok
      · cases hok
      · cases hok
    · rintro w e ⟨hentry, hw⟩ herror
      -- in a calm run the directory is there and empty, so that it can be removed
      have htrouble : calm → False := by
        intro h
        obtain ⟨hpath, hnames⟩ := hempty h w hw
        obtain ⟨name, parent, rfl⟩ := List.exists_cons_of_ne_nil hpath
        have hdirectory := hentry h
        simp only [hdirectory, if_pos hnames] at herror
        cases herror
      refine ⟨_, rfl, htrouble, ?_⟩
      split
      · split
        · rename_i hnames
          rename_i name parent hdirectory
          exact hrmd name parent w rfl hw hdirectory hnames
        · exact hw
      · exact hw
      · exact hw

theorem runs_requireAbsentDirectory {entries : Option (List String)} {safeMessage : String}
    (hcalm : calm → ∀ w, p w → w.get path ≠ some .directory) :
    Runs inv (fun w => Listed conn path entries w ∧ p w)
      (requireAbsentDirectory entries safeMessage)
      (fun _ w => Listed conn path none w ∧ p w) (Troubled calm p) := by
  unfold requireAbsentDirectory
  cases entries with
  | none => exact runs_pure fun w hw => hw
  | some entries =>
    exact runs_throw fun w hw => ⟨fun h => hcalm h w hw.2 hw.1.1, hw.2⟩

theorem runs_removeDirectory (hinv : ∀ w, p w → inv w) (hstable : Stable p)
    (hreliable : calm → Reliable conn)
    (hrmd : ∀ name parent w, path = name :: parent → p w → w.get path = some .directory →
      w.tree.names path = [] → p (w.put name parent none))
    (hcalm : calm → ∀ w, p w → Inspectable conn path w ∧ path ≠ [] ∧ w.tree.names path = []) :
    Runs inv p (removeDirectory conn path) (fun _ w => Listed conn path none w ∧ p w)
      (Troubled calm p) := by
  have hinspect : calm → ∀ w, p w → Inspectable conn path w := fun h w hw => (hcalm h w hw).1
  have hempty : Runs inv (fun w => (calm → w.get path = some .directory) ∧ p w)
      (removeEmptyDirectory conn path) (fun _ w => Listed conn path none w ∧ p w)
      (Troubled calm p) := by
    have hrecheck : ¬ calm → Runs inv p (do
        let afterRmd ← listRevisionDirectory conn path
        requireAbsentDirectory afterRmd
          "The empty FTP revision directory could not be removed.")
        (fun _ w => (calm → w.get path = none) ∧ p w) (Troubled calm p) := by
      intro htrouble
      refine Runs.bind (runs_list hinv hstable hreliable hinspect) fun entries => ?_
      exact (runs_requireAbsentDirectory fun h => absurd h htrouble).mono
        (fun _ w hw => ⟨fun h => absurd h htrouble, hw.2⟩) fun _ _ hw => hw
    have hlast := @runs_list conn path inv (fun w => (calm → w.get path = none) ∧ p w) calm
      (fun w hw => hinv w hw.2) (fun w other hw => ⟨hw.1, hstable w other hw.2⟩) hreliable
      fun h w hw => hinspect h w hw.2
    refine Runs.bind (runs_exceptPermanent (runs_rmd hinv hstable hreliable hrmd
      fun h w hw => (hcalm h w hw).2) hrecheck) fun _ => ?_
    refine Runs.bind (hlast.mono (fun _ _ hw => hw) fun _ w hw => ⟨hw.1, hw.2.2⟩) fun entries => ?_
    refine (runs_requireAbsentDirectory fun h w hw => ?_).mono (fun _ w hw => ⟨hw.1, hw.2.2⟩)
      fun _ w hw => ⟨hw.1, hw.2.2⟩
    rw [hw.1 h]
    simp
  refine Runs.bind (runs_list hinv hstable hreliable hinspect) fun entries => ?_
  cases entries with
  | none => exact runs_pure fun w hw => hw
  | some remaining =>
    dsimp only
    refine Runs.bind ((@runs_rejectUnknown conn path inv p calm (some remaining) []
      fun h w hw name hname => ?_).mono (fun _ w hw => hw) fun _ w hw => hw) fun _ => ?_
    · have hmem := (w.tree.mem_names name path).mpr (Option.isSome_iff_ne_none.mpr hname)
      rwa [(hcalm h w hw).2.2] at hmem
    · split
      · rename_i hremaining
        refine runs_throw fun w hw => ⟨fun h => hremaining ?_, hw.2.2⟩
        obtain ⟨-, hnames⟩ := hw.2.1
        rw [hnames]
        exact (hcalm h w hw.2.2).2.2
      · exact hempty.weaken fun w hw => ⟨fun _ => hw.2.1.1, hw.2.2⟩

theorem mem_interrupted {entries temporaries : List String} {name : String} :
    name ∈ interrupted entries temporaries ↔ name ∈ entries ∧ name ∈ temporaries := by
  unfold interrupted
  rw [(List.perm_insertionSort _ _).mem_iff, List.mem_dedup, List.mem_filter, List.contains_iff_mem]

theorem nodup_interrupted (entries temporaries : List String) :
    (interrupted entries temporaries).Nodup := by
  unfold interrupted
  exact (List.perm_insertionSort _ _).nodup_iff.mpr (List.nodup_dedup _)

theorem mem_orderedFiles {expected : List ExpectedRemoteFile} {file : ExpectedRemoteFile} :
    file ∈ orderedFiles expected ↔ file ∈ expected := by
  unfold orderedFiles
  rw [List.mem_append, List.mem_filter, List.mem_filter]
  by_cases hname : file.filename = manifestName
  · simp [hname]
  · simp [hname]

theorem orderedFiles_perm (expected : List ExpectedRemoteFile) :
    (orderedFiles expected).Perm expected := by
  have hsplit := List.filter_append_perm (fun file : ExpectedRemoteFile =>
    file.filename != manifestName) expected
  have hnot : ∀ file : ExpectedRemoteFile, (!(file.filename != manifestName)) =
      (file.filename == manifestName) := by
    intro file
    rw [bne, Bool.not_not]
  simp only [hnot] at hsplit
  exact hsplit

theorem deleteExpected_append {names : List String} (first rest : List ExpectedRemoteFile)
    (counts : DeletionCounts) :
    deleteExpected conn path names (first ++ rest) counts =
      deleteExpected conn path names first counts >>= deleteExpected conn path names rest := by
  induction first generalizing counts with
  | nil => rfl
  | cons file first ih =>
    simp only [List.cons_append, deleteExpected, bind_assoc]
    congr 1
    funext entries
    split
    · simp only [ih, bind_assoc]
    · exact ih _

theorem runs_deleteOrdered {expected : List ExpectedRemoteFile} {present : String → Bool}
    (hinv : ∀ w, p w → inv w) (hstable : Stable p) (hreliable : calm → Reliable conn)
    (hnodup : (namesOf expected).Nodup)
    (hartifact : ∀ file ∈ expected, file.filename ≠ manifestName → ∀ w content, p w →
      w.get (file.filename :: path) = some (.file content) → p (w.put file.filename path none))
    (hmanifest : ∀ w content, p w → (∀ file ∈ expected, file.filename ≠ manifestName →
        w.get (file.filename :: path) = none) →
      w.get (manifestName :: path) = some (.file content) → p (w.put manifestName path none))
    (hcalm : calm → ∀ w, p w → Inspectable conn path w ∧ ∀ name, w.get (name :: path) ≠ none →
      w.get (name :: path) ≠ some .directory ∧ name ∈ namesOf expected) :
    Runs inv (fun w => (calm → ∀ file ∈ expected,
        (w.get (file.filename :: path) ≠ none ↔ present file.filename = true)) ∧ p w)
      (deleteExpected conn path (namesOf expected) (orderedFiles expected) ⟨0, 0, 0⟩)
      (fun counts w => (∀ file ∈ expected, w.get (file.filename :: path) = none) ∧
        (calm → counts.missing = expected.countP (fun file => !present file.filename)) ∧ p w)
      (Troubled calm p) := by
  let artifacts := expected.filter (fun file => file.filename != manifestName)
  let manifests := expected.filter (fun file => file.filename == manifestName)
  have hartifacts : ∀ file ∈ artifacts, file ∈ expected ∧ file.filename ≠ manifestName := by
    intro file hfile
    obtain ⟨hmem, hne⟩ := List.mem_filter.mp hfile
    exact ⟨hmem, bne_iff_ne.mp hne⟩
  have hmanifests : ∀ file ∈ manifests, file ∈ expected ∧ file.filename = manifestName := by
    intro file hfile
    obtain ⟨hmem, heq⟩ := List.mem_filter.mp hfile
    exact ⟨hmem, eq_of_beq heq⟩
  have hsublist : ∀ q, ((expected.filter q).map (fun file => file.filename)).Nodup :=
    fun q => hnodup.sublist (List.filter_sublist.map _)
  have hdirectory : ∀ w, calm → p w → ∀ file : ExpectedRemoteFile,
      w.get (file.filename :: path) ≠ some .directory := fun w h hw file hentry =>
    ((hcalm h w hw).2 _ (by rw [hentry]; simp)).1 hentry
  have hfirst := @runs_deleteExpected conn path inv (fun w => (calm → ∀ file ∈ manifests,
      (w.get (file.filename :: path) ≠ none ↔ present file.filename = true)) ∧ p w) calm
    (namesOf expected) artifacts present (fun w hw => hinv w hw.2)
    (fun w other hw => ⟨hw.1, hstable w other hw.2⟩) hreliable (hsublist _)
    (fun file hfile w content hw hentry => by
      obtain ⟨hmem, hne⟩ := hartifacts file hfile
      refine ⟨fun h other hother => ?_, hartifact file hmem hne w content hw.2 hentry⟩
      have hother' : other.filename ≠ file.filename := by
        rw [(hmanifests other hother).2]
        exact hne.symm
      rw [Site.get_put_of_ne (cons_ne_cons hother')]
      exact hw.1 h other hother)
    (fun h w hw => ⟨(hcalm h w hw.2).1, fun name hname => ((hcalm h w hw.2).2 name hname).2,
      fun file _ => hdirectory w h hw.2 file⟩) ⟨0, 0, 0⟩
  have hsecond := fun counts => @runs_deleteExpected conn path inv (fun w => (∀ file ∈ artifacts,
      w.get (file.filename :: path) = none) ∧ p w) calm (namesOf expected) manifests present
    (fun w hw => hinv w hw.2) (fun w other hw => ⟨hw.1, hstable w other hw.2⟩) hreliable
    (hsublist _)
    (fun file hfile w content hw hentry => by
      obtain ⟨hmem, heq⟩ := hmanifests file hfile
      rw [heq] at hentry ⊢
      refine ⟨fun other hother => ?_, hmanifest w content hw.2 (fun other hother hne =>
        hw.1 other (List.mem_filter.mpr ⟨hother, bne_iff_ne.mpr hne⟩)) hentry⟩
      rw [Site.get_put_of_ne (cons_ne_cons (hartifacts other hother).2)]
      exact hw.1 other hother)
    (fun h w hw => ⟨(hcalm h w hw.2).1, fun name hname => ((hcalm h w hw.2).2 name hname).2,
      fun file _ => hdirectory w h hw.2 file⟩) counts
  -- the counts of the artifacts are known when the manifest is looked at
  have hlast : ∀ counts, (calm → counts = DeletionCounts.after ⟨0, 0, 0⟩ present artifacts) →
      Runs inv (fun w => (calm → ∀ file ∈ manifests,
          (w.get (file.filename :: path) ≠ none ↔ present file.filename = true)) ∧
          (∀ file ∈ artifacts, w.get (file.filename :: path) = none) ∧ p w)
        (deleteExpected conn path (namesOf expected) manifests counts)
        (fun counts w => (∀ file ∈ expected, w.get (file.filename :: path) = none) ∧
          (calm → counts.missing = expected.countP (fun file => !present file.filename)) ∧ p w)
        (Troubled calm p) := by
    intro counts hcounts
    refine (hsecond counts).mono ?_ fun _ w hw => ⟨hw.1, hw.2.2⟩
    rintro result w ⟨hgone, hresult, hfiles, hp⟩
    refine ⟨fun file hfile => ?_, fun h => ?_, hp⟩
    · by_cases hname : file.filename = manifestName
      · exact hgone file (List.mem_filter.mpr ⟨hfile, beq_iff_eq.mpr hname⟩)
      · exact hfiles file (List.mem_filter.mpr ⟨hfile, bne_iff_ne.mpr hname⟩)
    · rw [hresult h, hcounts h, ← (orderedFiles_perm expected).countP_eq]
      unfold orderedFiles
      rw [List.countP_append]
      simp [DeletionCounts.after, artifacts, manifests]
  unfold orderedFiles
  rw [deleteExpected_append]
  refine Runs.bind ((hfirst.weaken fun w hw => ⟨fun h file hfile => hw.1 h file
      (hartifacts file hfile).1, fun h file hfile => hw.1 h file (hmanifests file hfile).1,
      hw.2⟩).mono (fun _ _ hw => hw) fun _ w hw => ⟨hw.1, hw.2.2⟩) fun counts => ?_
  exact (Runs.assume (hlast counts)).weaken fun w hw => ⟨hw.2.1, hw.2.2.1, hw.1, hw.2.2.2⟩

/-- The files of a directory that are left once the temporaries are gone. -/
def presentOf (present : String → Bool) (temporaries : List String) (name : String) : Bool :=
  present name && !temporaries.contains name

/-- What a deletion may do keeps `p`, and takes the directory away: the manifest goes after
the artifacts, and the directory when it is empty. In a calm run no error is raised and the
files are counted. -/
theorem runs_deleteFiles {remotePath : String} {expected : List ExpectedRemoteFile}
    {present : String → Bool} (hinv : ∀ w, p w → inv w) (hstable : Stable p)
    (hreliable : calm → Reliable conn) (hnodup : (namesOf expected).Nodup)
    (htemporary : ∀ name ∈ temporariesOf expected, ∀ w content, p w →
      w.get (name :: path) = some (.file content) → p (w.put name path none))
    (hartifact : ∀ file ∈ expected, file.filename ≠ manifestName → ∀ w content, p w →
      w.get (file.filename :: path) = some (.file content) → p (w.put file.filename path none))
    (hmanifest : ∀ w content, p w → (∀ file ∈ expected, file.filename ≠ manifestName →
        w.get (file.filename :: path) = none) →
      w.get (manifestName :: path) = some (.file content) → p (w.put manifestName path none))
    (hrmd : ∀ name parent w, path = name :: parent → p w → w.get path = some .directory →
      w.tree.names path = [] → p (w.put name parent none))
    (hcalm : calm → ∀ w, p w → Inspectable conn path w ∧ path ≠ [] ∧
      ∀ name, w.get (name :: path) ≠ none → w.get (name :: path) ≠ some .directory ∧
        name ∈ allowedEntries expected) :
    Runs inv (fun w => (calm → ∀ name, w.get (name :: path) ≠ none ↔ present name = true) ∧ p w)
      (deleteFiles conn path remotePath expected)
      (fun result w => (calm → result.missingFileCount = expected.countP (fun file =>
          !presentOf present (temporariesOf expected) file.filename)) ∧
        Listed conn path none w ∧ p w)
      (Troubled calm p) := by
  have hinspect : calm → ∀ w, p w → Inspectable conn path w := fun h w hw => (hcalm h w hw).1
  unfold deleteFiles
  have hlist := @runs_list conn path inv (fun w => (calm → ∀ name,
      w.get (name :: path) ≠ none ↔ present name = true) ∧ p w) calm (fun w hw => hinv w hw.2)
    (fun w other hw => ⟨hw.1, hstable w other hw.2⟩) hreliable fun h w hw => hinspect h w hw.2
  refine Runs.bind (hlist.mono (fun _ _ hw => hw) fun _ w hw => ⟨hw.1, hw.2.2⟩) fun entries => ?_
  cases entries with
  | none =>
    refine runs_pure fun w ⟨hlisted, hpresent, hw⟩ => ⟨fun h => ?_, hlisted, hw⟩
    have habsent : ∀ name, present name = false := by
      intro name
      rw [← Bool.not_eq_true, ← hpresent h name, not_not]
      exact FileTree.get_cons_of_ne_directory hlisted.1
    rw [List.countP_eq_length.mpr fun file _ => by simp [presentOf, habsent]]
  | some entries =>
    dsimp only
    -- the temporaries of the listing go first; the others are not there
    let p₁ : Site → Prop := fun w => (calm → ∀ name, name ∉ temporariesOf expected →
      (w.get (name :: path) ≠ none ↔ present name = true)) ∧
      (∀ name, name ∉ interrupted entries (temporariesOf expected) →
        name ∈ temporariesOf expected → w.get (name :: path) = none) ∧ p w
    have hunknown := @runs_rejectUnknown conn path inv (fun w => (calm → ∀ name,
        w.get (name :: path) ≠ none ↔ present name = true) ∧ p w) calm (some entries)
      (allowedEntries expected) fun h w hw name hname => ((hcalm h w hw.2).2.2 name hname).2
    refine Runs.bind (hunknown.mono (fun _ _ hw => hw) fun _ w hw => ⟨hw.1, hw.2.2⟩) fun _ => ?_
    have hstart : ∀ w, ((∀ name ∈ (some entries).getD [], name ∈ allowedEntries expected) ∧
        Listed conn path (some entries) w ∧ (calm → ∀ name,
          w.get (name :: path) ≠ none ↔ present name = true) ∧ p w) →
        (calm → ∀ name ∈ interrupted entries (temporariesOf expected),
          w.get (name :: path) ≠ none) ∧ p₁ w := by
      rintro w ⟨-, hlisted, hpresent, hw⟩
      refine ⟨fun _ name hname => Listed.get_ne_none hlisted (mem_interrupted.mp hname).1,
        fun h name _ => hpresent h name, fun name hnot hmem => ?_, hw⟩
      exact Listed.get_eq_none hlisted fun hentry => hnot (mem_interrupted.mpr ⟨hentry, hmem⟩)
    have htemps := @runs_deleteTemporaries conn path inv p₁ calm (allowedEntries expected)
      (interrupted entries (temporariesOf expected)) (fun w hw => hinv w hw.2.2)
      (fun w other hw => ⟨hw.1, hw.2.1, hstable w other hw.2.2⟩) hreliable (nodup_interrupted _ _)
      (fun name hname w content hw hentry => by
        have htemp := (mem_interrupted.mp hname).2
        refine ⟨fun h other hother => ?_, fun other hnot hother => ?_,
          htemporary name htemp w content hw.2.2 hentry⟩
        · have hne : other ≠ name := fun heq => hother (heq ▸ htemp)
          rw [Site.get_put_of_ne (cons_ne_cons hne)]
          exact hw.1 h other hother
        · have hne : other ≠ name := fun heq => hnot (heq ▸ hname)
          rw [Site.get_put_of_ne (cons_ne_cons hne)]
          exact hw.2.1 other hnot hother)
      (fun h w hw => ⟨hinspect h w hw.2.2, fun name hname => ((hcalm h w hw.2.2).2.2 name hname).2,
        fun name _ hentry => ((hcalm h w hw.2.2).2.2 name (by rw [hentry]; simp)).1 hentry⟩)
    refine Runs.bind ((htemps.weaken hstart).mono (fun _ _ hw => hw)
      fun _ w hw => ⟨hw.1, hw.2.2.2⟩) fun _ => ?_
    -- then the expected files, in a directory without temporaries
    let p₂ : Site → Prop := fun w => (∀ name ∈ temporariesOf expected,
      w.get (name :: path) = none) ∧ p w
    have hkeep : ∀ (w : Site) (name : String), (∀ other ∈ temporariesOf expected, w.get (other :: path) = none) →
        ∀ other ∈ temporariesOf expected, (w.put name path none).get (other :: path) = none := by
      intro w name hnone other hother
      by_cases hself : other = name
      · subst hself
        unfold Site.put
        split
        · exact FileTree.get_update_none (hnone other hother)
        · exact hnone other hother
      · rw [Site.get_put_of_ne (cons_ne_cons hself)]
        exact hnone other hother
    have hordered := @runs_deleteOrdered conn path inv p₂ calm expected
      (presentOf present (temporariesOf expected)) (fun w hw => hinv w hw.2)
      (fun w other hw => ⟨hw.1, hstable w other hw.2⟩) hreliable hnodup
      (fun file hfile hne w content hw hentry =>
        ⟨hkeep w _ hw.1, hartifact file hfile hne w content hw.2 hentry⟩)
      (fun w content hw hgone hentry => ⟨hkeep w _ hw.1, hmanifest w content hw.2 hgone hentry⟩)
      (fun h w hw => ⟨hinspect h w hw.2, fun name hname => by
        obtain ⟨hfile, hallowed⟩ := (hcalm h w hw.2).2.2 name hname
        refine ⟨hfile, (List.mem_append.mp hallowed).resolve_right fun htemp => ?_⟩
        exact hname (hw.1 name htemp)⟩)
    refine Runs.bind ((hordered.weaken ?_).mono (fun _ _ hw => hw)
      fun _ w hw => ⟨hw.1, hw.2.2⟩) fun counts => ?_
    · rintro w ⟨hgone, hpresent, hother, hw⟩
      have hnone : ∀ name ∈ temporariesOf expected, w.get (name :: path) = none := by
        intro name hname
        by_cases hlisted : name ∈ interrupted entries (temporariesOf expected)
        · exact hgone name hlisted
        · exact hother name hlisted hname
      refine ⟨fun h file _ => ?_, hnone, hw⟩
      unfold presentOf
      by_cases htemp : file.filename ∈ temporariesOf expected
      · simp [hnone _ htemp, htemp]
      · simpa [htemp] using hpresent h file.filename htemp
    · -- and the directory, which is empty now
      have hremove : ∀ counts : DeletionCounts, (calm → counts.missing = expected.countP (fun file =>
            !presentOf present (temporariesOf expected) file.filename)) →
          Runs inv (fun w => (∀ file ∈ expected, w.get (file.filename :: path) = none) ∧ p₂ w)
            (do
              removeDirectory conn path
              pure (DeletedRevisionResult.mk remotePath expected.length counts.deleted
                counts.missing counts.bytes true false))
            (fun result w => (calm → result.missingFileCount = expected.countP (fun file =>
              !presentOf present (temporariesOf expected) file.filename)) ∧
              Listed conn path none w ∧ p w) (Troubled calm p) := by
        intro counts hcounts
        have hempty := @runs_removeDirectory conn path inv (fun w => (∀ file ∈ expected,
            w.get (file.filename :: path) = none) ∧ p₂ w) calm (fun w hw => hinv w hw.2.2)
          (fun w other hw => ⟨hw.1, hw.2.1, hstable w other hw.2.2⟩) hreliable
          (fun name parent w hpath hw hentry hnames => by
            have hbelow : ∀ other : String, other :: path ≠ name :: parent :=
              fun other heq => List.cons_ne_self other path (heq.trans hpath.symm)
            refine ⟨fun file hfile => ?_, fun other hother => ?_,
              hrmd name parent w hpath hw.2.2 hentry hnames⟩
            · rw [Site.get_put_of_ne (hbelow _)]
              exact hw.1 file hfile
            · rw [Site.get_put_of_ne (hbelow _)]
              exact hw.2.1 other hother)
          (fun h w hw => by
            obtain ⟨hlisted, hpath, hentries⟩ := hcalm h w hw.2.2
            refine ⟨hlisted, hpath, List.eq_nil_iff_forall_not_mem.mpr fun name hname => ?_⟩
            have hthere := Option.isSome_iff_ne_none.mp ((w.tree.mem_names name path).mp hname)
            rcases List.mem_append.mp (hentries name hthere).2 with hfile | htemp
            · obtain ⟨file, hmem, rfl⟩ := List.mem_map.mp hfile
              exact hthere (hw.1 file hmem)
            · exact hthere (hw.2.1 name htemp))
        refine Runs.bind (hempty.mono (fun _ _ hw => hw) fun _ w hw => ⟨hw.1, hw.2.2.2⟩) fun _ => ?_
        exact runs_pure fun w hw => ⟨hcounts, hw.1, hw.2.2.2⟩
      exact (Runs.assume (hremove counts)).weaken fun w hw => ⟨hw.2.1, hw.1, hw.2.2⟩

end Steps

section Retries

/-- The replies to an absent path that the helpers accept once a listing confirms them. -/
structure Accepted (dialect : Dialect) : Prop where
  code : (dialect.absent.kind = .perm ∧ "550".toList.isPrefixOf (loweredText dialect.absent)) ∨
    (dialect.absent.kind = .temp ∧ "450".toList.isPrefixOf (loweredText dialect.absent))
  allowed : isDeniedFtpError dialect.absent = false
  listed : dialect.emptyListing = none

/-- A copy that has been deleted in part or as a whole, or not yet: a listing of its parent
tells whether the directory is there, and only expected files and temporaries are in it. -/
structure Deletable (expected : List ExpectedRemoteFile) (path : List String) (w : Site) :
    Prop where
  nonempty : path ≠ []
  parent : w.get path.tail = some .directory
  siblings : ∀ name ∈ w.tree.names path.tail, SafeName name
  entries : w.get path = none ∨ (w.get path = some .directory ∧
    ∀ name, w.get (name :: path) ≠ none → name ∈ allowedEntries expected ∧
      w.get (name :: path) ≠ some .directory)

/-- A deletion that succeeds: the directory is gone, and the files that were not there, or
only as temporaries of others, count as missing. -/
def Succeeds (lib : Library) (conn : Connection) (destination : BackupDestination)
    (copy : AuditedCopy) (expected : List ExpectedRemoteFile) (w : Site) : Prop :=
  match deleteRevisionReplicaFtp conn lib destination copy ⟨w, []⟩ with
  | .ok result d => d.world.get (remoteDirectory copy.replica.remotePath) = none ∧
      result.missingFileCount = expected.countP (fun file => !presentOf
        (fun name => (w.get (name :: remoteDirectory copy.replica.remotePath)).isSome)
        (temporariesOf expected) file.filename)
  | .error _ _ => False

variable {lib : Library} {destination : BackupDestination} {copy : AuditedCopy}
  {expected : List ExpectedRemoteFile} {path : List String} {conn : Connection}

theorem Deletable.stable : Stable (Deletable expected path) :=
  fun _ _ h => ⟨h.nonempty, h.parent, h.siblings, h.entries⟩

theorem cons_ne_tail (name : String) (path : List String) : path.tail ≠ name :: path := by
  intro h
  have hlength := congrArg List.length h
  rw [List.length_tail, List.length_cons] at hlength
  omega

theorem Deletable.delete {w : Site} (h : Deletable expected path w) (name : String) :
    Deletable expected path (w.put name path none) where
  nonempty := h.nonempty
  parent := by
    rw [Site.get_put_of_ne (cons_ne_tail name path)]
    exact h.parent
  siblings := by
    intro other hother
    refine h.siblings other ?_
    rw [FileTree.mem_names] at hother ⊢
    have hne : other :: path.tail ≠ name :: path := by
      intro heq
      have htail := (List.cons.inj heq).2
      have hlength := congrArg List.length htail
      rw [List.length_tail] at hlength
      exact h.nonempty (List.length_eq_zero_iff.mp (by omega))
    rwa [show (w.put name path none).tree.get (other :: path.tail) = w.tree.get (other :: path.tail)
      from Site.get_put_of_ne hne] at hother
  entries := by
    rw [Site.get_put_of_ne (List.cons_ne_self name path).symm]
    refine h.entries.imp_right fun ⟨hentry, hnames⟩ => ⟨hentry, fun other hother => ?_⟩
    by_cases hself : other = name
    · subst hself
      rcases Site.get_put_none w other path with hnone | hkept
      · exact absurd hnone hother
      · rw [hkept] at hother ⊢
        exact hnames other hother
    · rw [Site.get_put_of_ne (cons_ne_cons hself)] at hother ⊢
      exact hnames other hother

theorem Deletable.rmd {w : Site} {name : String} {parent : List String}
    (h : Deletable expected path w) (hpath : path = name :: parent)
    (hentry : w.get path = some .directory) : Deletable expected path (w.put name parent none) := by
  subst hpath
  have hthere : name ∈ w.tree.names parent := by
    rw [w.tree.mem_names, show w.tree.get (name :: parent) = some .directory from hentry]
    rfl
  refine ⟨h.nonempty, ?_, fun other hother => ?_, ?_⟩
  · rw [List.tail_cons, Site.get_put_of_ne (List.cons_ne_self name parent).symm]
    exact h.parent
  · rcases Site.mem_names_put hother with rfl | hother
    · exact h.siblings other hthere
    · exact h.siblings other hother
  · rcases Site.get_put_none w name parent with hnone | hkept
    · exact Or.inl hnone
    · rw [hkept]
      refine h.entries.imp_right fun ⟨hdirectory, hnames⟩ => ⟨hdirectory, fun other hother => ?_⟩
      rw [Site.get_put_of_ne (List.cons_ne_self other (name :: parent))] at hother ⊢
      exact hnames other hother

theorem forM_eq_ok {α ε : Type} {f : α → Except ε Unit} {items : List α}
    (h : items.forM f = .ok ()) : ∀ item ∈ items, f item = .ok () := by
  induction items with
  | nil => exact nofun
  | cons item items ih =>
    change (f item >>= fun _ => items.forM f) = .ok () at h
    cases hitem : f item with
    | error e =>
      rw [hitem] at h
      cases h
    | ok u =>
      rw [hitem] at h
      intro other hother
      rcases List.mem_cons.mp hother with rfl | hother
      · exact hitem
      · exact ih h other hother

/-- What the checks before a deletion establish. -/
theorem deletionFileset_ok (h : deletionFileset lib destination copy = .ok expected) :
    expectedFilesOf lib copy none = .ok expected ∧ (namesOf expected).Nodup ∧
      ∀ name ∈ allowedEntries expected, validateDirectFilename name = .ok () := by
  unfold deletionFileset at h
  split at h
  · cases h
  split at h
  · cases h
  split at h
  · cases h
  split at h
  · cases h
  cases hpath : validateRecordedRevisionPath lib.nfkd destination copy.revision
      copy.target.deviceId copy.replica.remotePath "DELETE_PATH_INVALID" with
  | error e =>
    rw [hpath] at h
    cases h
  | ok found =>
    cases hfiles : expectedFilesOf lib copy none with
    | error e =>
      rw [hpath, hfiles] at h
      cases h
    | ok files =>
      rw [hpath, hfiles] at h
      simp only [bind, Except.bind] at h
      split at h
      · rename_i hnodup
        cases hvalid : (files.map (fun file => file.filename) ++
            (files.map (fun file => file.filename)).map temporaryName).forM
              validateDirectFilename with
        | error e =>
          rw [hvalid] at h
          cases h
        | ok u =>
          rw [hvalid] at h
          obtain rfl := Except.ok.inj h
          exact ⟨rfl, hnodup, forM_eq_ok hvalid⟩
      · cases h

theorem Deletable.inspectable {w : Site} (h : Deletable expected path w)
    (haccepted : Accepted conn.dialect) (hkind : conn.dialect.absent.kind = .perm)
    (hvalid : ∀ name ∈ allowedEntries expected, validateDirectFilename name = .ok ()) :
    Inspectable conn path w := by
  rcases h.entries with hnone | ⟨hentry, hnames⟩
  · exact Or.inr ⟨⟨hnone, h.parent, h.siblings, haccepted.listed⟩, hkind, haccepted.allowed⟩
  · refine Or.inl ⟨hentry, fun name hname => ?_, haccepted.listed⟩
    have hthere := Option.isSome_iff_ne_none.mp ((w.tree.mem_names name path).mp hname)
    exact safeName_of_valid (hvalid name (hnames name hthere).1)

/-- The deletion of a copy, whatever happens to its commands: where a calm run raises no error,
it is one in which an absent path is answered with a permanent error. -/
theorem runs_deleteRevisionReplicaFtp {calm : Prop}
    (hset : deletionFileset lib destination copy = .ok expected)
    (hreliable : calm → Reliable conn) (haccepted : calm → Accepted conn.dialect)
    (hkind : calm → conn.dialect.absent.kind = .perm) (present : String → Bool) :
    Runs (Deletable expected (remoteDirectory copy.replica.remotePath))
      (fun w => (calm → ∀ name, w.get (name :: remoteDirectory copy.replica.remotePath) ≠ none ↔
        present name = true) ∧ Deletable expected (remoteDirectory copy.replica.remotePath) w)
      (deleteRevisionReplicaFtp conn lib destination copy)
      (fun result w => (calm → result.missingFileCount = expected.countP (fun file =>
          !presentOf present (temporariesOf expected) file.filename)) ∧
        Listed conn (remoteDirectory copy.replica.remotePath) none w ∧
        Deletable expected (remoteDirectory copy.replica.remotePath) w)
      (Troubled calm (Deletable expected (remoteDirectory copy.replica.remotePath))) := by
  obtain ⟨-, hnodup, hvalid⟩ := deletionFileset_ok hset
  unfold deleteRevisionReplicaFtp
  rw [hset]
  dsimp only
  refine Runs.handle (runs_deleteFiles (fun _ hw => hw) Deletable.stable hreliable hnodup
    (fun name _ _ _ hw _ => hw.delete name) (fun file _ _ _ _ hw _ => hw.delete file.filename)
    (fun _ _ hw _ _ => hw.delete manifestName)
    (fun _ _ _ hpath hw hentry _ => hw.rmd hpath hentry)
    (fun h w hw => ⟨hw.inspectable (haccepted h) (hkind h) hvalid, hw.nonempty,
      fun name hname => ?_⟩)) fun e => ?_
  · rcases hw.entries with hnone | ⟨-, hnames⟩
    · exact absurd (FileTree.get_cons_of_ne_directory (by
        rw [show w.tree.get (remoteDirectory copy.replica.remotePath) = none from hnone]
        simp)) hname
    · exact ⟨(hnames name hname).2, (hnames name hname).1⟩
  · cases e with
    | ftp e => exact runs_throw fun w hw => hw
    | destination e => exact runs_throw fun w hw => hw
    | other => exact runs_throw fun w hw => hw

/-- The connection of a retry on which every command is answered. -/
def answering (dialect : Dialect) : Connection where
  dialect := dialect
  fates := fun _ => .answered
  failures := fun _ => ⟨.other, ""⟩
  honest := fun _ => by decide

theorem reliable_answering (dialect : Dialect) : Reliable (answering dialect) := fun _ => rfl

/-- A moment of an attempt leaves the copy deletable. -/
theorem deletable_of_moment {site w : Site}
    (hset : deletionFileset lib destination copy = .ok expected)
    (hsite : Deletable expected (remoteDirectory copy.replica.remotePath) site)
    (hmoment : Moment (deleteRevisionReplicaFtp conn lib destination copy) site w) :
    Deletable expected (remoteDirectory copy.replica.remotePath) w := by
  exact (@runs_deleteRevisionReplicaFtp lib destination copy expected conn False hset False.elim
    False.elim False.elim (fun _ => false)).moment ⟨False.elim, hsite⟩ (fun _ _ hw => hw.2.2)
    (fun _ _ hw => hw.2) hmoment

/-- A deletion that succeeds has seen the reply to an absent directory, and accepted it. -/
theorem perm_of_succeeds {w : Site} (hset : deletionFileset lib destination copy = .ok expected)
    (hreliable : Reliable conn)
    (hdeletable : Deletable expected (remoteDirectory copy.replica.remotePath) w)
    (hsucceeds : Succeeds lib conn destination copy expected w) :
    conn.dialect.absent.kind = .perm := by
  unfold Succeeds at hsucceeds
  cases hresult : deleteRevisionReplicaFtp conn lib destination copy ⟨w, []⟩ with
  | ok result d =>
    have hpost := (@runs_deleteRevisionReplicaFtp lib destination copy expected conn False hset
      False.elim False.elim False.elim (fun _ => false)).result ⟨False.elim, hdeletable⟩ hresult
    rw [hresult] at hsucceeds
    exact hpost.2.1.2 hreliable hsucceeds.1
  | error e d =>
    rw [hresult] at hsucceeds
    exact hsucceeds.elim

/-- Where every retry succeeds, the reply to an absent path is accepted. -/
theorem perm_of_all_succeed {dialect : Dialect} {site : Site}
    (hset : deletionFileset lib destination copy = .ok expected)
    (hsite : Deletable expected (remoteDirectory copy.replica.remotePath) site)
    (h : ∀ (previous : Connection) (w : Site), previous.dialect = dialect →
      Moment (deleteRevisionReplicaFtp previous lib destination copy) site w →
        ∀ conn : Connection, conn.dialect = dialect → Reliable conn →
          Succeeds lib conn destination copy expected w) : dialect.absent.kind = .perm := by
  obtain ⟨w, hmoment⟩ := exists_moment
    (deleteRevisionReplicaFtp (answering dialect) lib destination copy) site
  exact perm_of_succeeds hset (reliable_answering dialect) (deletable_of_moment hset hsite hmoment)
    (h (answering dialect) w rfl hmoment (answering dialect) rfl (reliable_answering dialect))

/-- A server with one text for a path that is not there, as some Windows servers have. -/
def genericDialect (kind : FtpErrorKind) (message : String) : Dialect where
  absent := ⟨kind, message⟩
  refused := ⟨.perm, "550 Requested action not taken."⟩
  emptyListing := none
  absentListing := some ⟨kind, message⟩
  overwrites := false

def exampleFiles : List ExpectedRemoteFile :=
  [⟨"running.txt", 1, "", "running"⟩, ⟨manifestName, 2, "", "manifest"⟩]

theorem exampleFiles_eq :
    deletionFileset exampleLibrary exampleDestination exampleAuditedCopy = .ok exampleFiles := by
  decide +kernel

/-- The directory of the copy has been removed, and its parent is still there. -/
theorem exampleSite_deletable :
    Deletable exampleFiles (remoteDirectory exampleAuditedCopy.replica.remotePath)
      (siteWith (remoteDirectory exampleAuditedCopy.replica.remotePath).tail) where
  nonempty := by decide +kernel
  parent := by decide +kernel
  siblings := by decide +kernel
  entries := Or.inl (by decide +kernel)

end Retries

end ConfigBackup.FtpDeletion
