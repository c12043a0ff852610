import ConfigBackup.FtpDeletion

/-!
The deletion of a copy in a mounted directory, and what the deletions of both backends leave
alone. The manifest is the last expected file; an artifact may have its name.
-/

namespace ConfigBackup.MountedDeletion

open FileTrees FtpDeletion FtpListings FtpServer IntegrityAudit Models NewestCopies PosixPaths
  RecordedPaths RemoteFileNames Replication Requests RevisionFiles

/-- A regular file, or what is neither that nor a directory. -/
inductive MountedContent
  | regular (content : List UInt8)
  | special
deriving DecidableEq, Repr

abbrev MountedTree := FileTree String MountedContent

/-- What happens to the system calls; those that fail raise `PermissionError` or another
`OSError`. -/
structure Mount where
  fates : ℕ → Fate
  denied : ℕ → Bool

inductive MountedFailure
  | os (permission : Bool)
  | destination (e : DestinationError)
deriving DecidableEq, Repr

abbrev Mounted (α : Type) := Requests MountedTree MountedFailure α

section Calls

variable (mount : Mount)

def call {α : Type} (f : MountedTree → Except MountedFailure α × MountedTree) : Mounted α :=
  fun c => request mount.fates (.os (mount.denied c.passed.length)) f c

def pathExists (path : List String) : Mounted Bool := call mount fun tree =>
  (.ok (tree.get path).isSome, tree)

def iterdir (path : List String) : Mounted (List String) := call mount fun tree =>
  (if tree.get path = some .directory then .ok (tree.names path) else .error (.os false), tree)

/-- `not path.is_symlink() and path.is_file()`. -/
def isRegularFile (path : List String) : Mounted Bool := call mount fun tree =>
  (.ok (match tree.get path with | some (.file (.regular _)) => true | _ => false), tree)

def statSize (path : List String) : Mounted ℕ := call mount fun tree =>
  (match tree.get path with
    | some (.file (.regular content)) => .ok content.length
    | some _ => .ok 0
    | none => .error (.os false), tree)

def unlink (name : String) (parent : List String) : Mounted Unit := call mount fun tree =>
  match tree.get (name :: parent) with
  | some (.file _) => (.ok (), tree.update name parent none)
  | _ => (.error (.os false), tree)

def rmdir (path : List String) : Mounted Unit := call mount fun tree =>
  match path, tree.get path with
  | name :: parent, some .directory =>
    if tree.names path = [] then (.ok (), tree.update name parent none)
    else (.error (.os false), tree)
  | _, _ => (.error (.os false), tree)

end Calls

section Program

variable (mount : Mount) (path : List String)

/-- What is checked before the mount is looked at. -/
def mountedFileset (lib : Library) (destination : BackupDestination) (copy : AuditedCopy) :
    Except DestinationError (List ExpectedRemoteFile) :=
  if destination.protocol.mounted = false then
    .error ⟨"PROTOCOL_UNSUPPORTED",
      "This operation requires an NFS or SMB3 mounted storage profile."⟩
  else if destination.enabled = false then
    .error ⟨"DESTINATION_DISABLED",
      "The mounted storage is disabled and no remote file was deleted."⟩
  else do
    let (_, deviceDirectory) ← validateRecordedRevisionPath lib.nfkd destination copy.revision
      copy.target.deviceId copy.replica.remotePath "DELETE_PATH_INVALID"
    expectedFilesOf lib copy (some deviceDirectory)

/-- The loop over the expected files. -/
def unlinkExpected : List ExpectedRemoteFile → DeletionCounts → Mounted DeletionCounts
  | [], counts => pure counts
  | item :: rest, counts => do
    if ← pathExists mount (item.filename :: path) then
      if ← isRegularFile mount (item.filename :: path) then
        let size ← statSize mount (item.filename :: path)
        unlink mount item.filename path
        unlinkExpected rest
          { counts with deleted := counts.deleted + 1, bytes := counts.bytes + size }
      else
        throw (.destination ⟨"DELETE_FILESET_INVALID",
          "The revision directory contains an unsafe file entry."⟩)
    else unlinkExpected rest { counts with missing := counts.missing + 1 }

/-- The errors of the loop and of `rmdir`. -/
def deletionError : MountedFailure → MountedFailure
  | .os true => .destination ⟨"DESTINATION_DELETE_DENIED",
      "The NetBox worker cannot delete the expired mounted-storage copy."⟩
  | .os false => .destination ⟨"DESTINATION_DELETE_FAILED",
      "The mounted-storage revision copy could not be deleted safely."⟩
  | .destination e => .destination e

/-- The files and then the directory. -/
def unlinkDirectory (expected : List ExpectedRemoteFile) : Mounted DeletionCounts := do
  let counts ← unlinkExpected mount path expected ⟨0, 0, 0⟩
  rmdir mount path
  pure counts

def deleteMountedFiles (remotePath : String) (expected : List ExpectedRemoteFile) :
    Mounted DeletedRevisionResult := do
  if ← pathExists mount path then
    let actualNames ← iterdir mount path
    if actualNames.all (namesOf expected).contains then
      let counts ← handle (unlinkDirectory mount path expected) fun e => throw (deletionError e)
      pure ⟨remotePath, expected.length, counts.deleted, counts.missing, counts.bytes, true, false⟩
    else
      throw (.destination ⟨"DELETE_FILESET_CONFLICT",
        "The revision directory contains unknown files and was not deleted."⟩)
  else pure ⟨remotePath, expected.length, 0, expected.length, 0, false, true⟩

/-- `delete_revision_replica_mounted`; the mount is found below its allowed root or not. -/
def deleteRevisionReplicaMounted (root : Except DestinationError Unit) (lib : Library)
    (destination : BackupDestination) (copy : AuditedCopy) : Mounted DeletedRevisionResult :=
  match mountedFileset lib destination copy, root with
  | .error e, _ | .ok _, .error e => throw (.destination e)
  | .ok expected, .ok () =>
    deleteMountedFiles mount (remoteDirectory copy.replica.remotePath) copy.replica.remotePath
      expected

end Program

section Exactness

variable {κ : Type}

/-- Files under allowed names directly in a directory, and then the directory, are all that is
removed, and nothing else is changed. -/
def OnlyRemoves (dir allowed : List String) (before after : List String → Option (Entry κ)) :
    Prop :=
  ∀ path, after path = before path ∨ after path = none ∧
    ((∃ name ∈ allowed, path = name :: dir ∧ ∃ content, before path = some (.file content)) ∨
      (path = dir ∧ before path = some .directory))

/-- As long as there is an artifact, the manifest is not removed. -/
def ManifestKept (dir names : List String) (before after : List String → Option (Entry κ)) :
    Prop :=
  before (manifestName :: dir) ≠ none →
    (∃ name ∈ names, name ≠ manifestName ∧ after (name :: dir) ≠ none) →
      after (manifestName :: dir) ≠ none

variable {dir names allowed : List String} {before after after' : List String → Option (Entry κ)}

theorem OnlyRemoves.refl : OnlyRemoves dir allowed before before := fun _ => Or.inl rfl

/-- Taking away a file under an allowed name. -/
theorem OnlyRemoves.file (h : OnlyRemoves dir allowed before after) {name : String}
    (hname : name ∈ allowed) {content : κ} (hfile : after (name :: dir) = some (.file content))
    (hother : ∀ path, path ≠ name :: dir → after' path = after path)
    (hself : after' (name :: dir) = none ∨ after' (name :: dir) = after (name :: dir)) :
    OnlyRemoves dir allowed before after' := by
  intro path
  by_cases hpath : path = name :: dir
  · subst hpath
    have hbefore : before (name :: dir) = some (.file content) := by
      rcases h (name :: dir) with hsame | ⟨hnone, -⟩
      · rw [← hsame, hfile]
      · rw [hnone] at hfile
        cases hfile
    rcases hself with hgone | hkept
    · exact Or.inr ⟨hgone, Or.inl ⟨name, hname, rfl, content, hbefore⟩⟩
    · rw [hkept]
      exact h _
  · rw [hother path hpath]
    exact h path

/-- Taking away the directory. -/
theorem OnlyRemoves.directory (h : OnlyRemoves dir allowed before after)
    (hdir : after dir = some .directory) (hother : ∀ path, path ≠ dir → after' path = after path)
    (hself : after' dir = none ∨ after' dir = after dir) : OnlyRemoves dir allowed before after' := by
  intro path
  by_cases hpath : path = dir
  · subst hpath
    have hbefore : before path = some .directory := by
      rcases h path with hsame | ⟨hnone, -⟩
      · rw [← hsame, hdir]
      · rw [hnone] at hdir
        cases hdir
    rcases hself with hgone | hkept
    · exact Or.inr ⟨hgone, Or.inr ⟨rfl, hbefore⟩⟩
    · rw [hkept]
      exact h _
  · rw [hother path hpath]
    exact h path

/-- Another entry than the manifest may go. -/
theorem ManifestKept.mono (h : ManifestKept dir names before after)
    (hfewer : ∀ name, after' (name :: dir) ≠ none → after (name :: dir) ≠ none)
    (hmanifest : after' (manifestName :: dir) = after (manifestName :: dir)) :
    ManifestKept dir names before after' := by
  rintro hbefore ⟨name, hname, hne, hthere⟩
  rw [hmanifest]
  exact h hbefore ⟨name, hname, hne, hfewer name hthere⟩

/-- Without artifacts the manifest may go. -/
theorem ManifestKept.of_none (h : ∀ name ∈ names, name ≠ manifestName → after (name :: dir) = none) :
    ManifestKept dir names before after := by
  rintro - ⟨name, hname, hne, hthere⟩
  exact absurd (h name hname hne) hthere

/-- A deletion from a tree of any content. An entry that is not allowed stops it at once. -/
structure ExactRun {ω ε α : Type} (view : ω → List String → Option (Entry κ))
    (m : Requests ω ε α) (dir names allowed : List String) (start : ω) : Prop where
  removes : ∀ w, Moment m start w → OnlyRemoves dir allowed (view start) (view w)
  manifest : ∀ w, Moment m start w → ManifestKept dir names (view start) (view w)
  unknown : (∃ name, view start (name :: dir) ≠ none ∧ name ∉ allowed) →
    (∀ w, Moment m start w → view w = view start) ∧ ∀ a d, m ⟨start, []⟩ ≠ .ok a d
  absent : ∀ a d, m ⟨start, []⟩ = .ok a d → view d.world dir ≠ some .directory

/-- A program that raises before it sends a request. -/
theorem ExactRun.of_throw {ω ε α : Type} {view : ω → List String → Option (Entry κ)} {start : ω}
    (e : ε) : ExactRun view (throw e : Requests ω ε α) dir names allowed start := by
  have hmoment : ∀ w, Moment (throw e : Requests ω ε α) start w → w = start := by
    rintro w (hmem | rfl)
    · exact absurd hmem List.not_mem_nil
    · rfl
  refine ⟨fun w hw => ?_, fun w hw => ?_, fun _ => ⟨fun w hw => ?_, nofun⟩, nofun⟩
  · rw [hmoment w hw]
    exact .refl
  · rw [hmoment w hw]
    exact fun hbefore _ => hbefore
  · rw [hmoment w hw]

/-- The names of the expected files of a copy, which are the same for both backends. -/
def expectedNames (lib : Library) (copy : AuditedCopy) : List String :=
  match expectedFilesOf lib copy none with
  | .ok files => namesOf files
  | .error _ => []

/-- Both backends remove exactly a recorded copy. -/
def DeletesExactly (lib : Library) (ftp mounted : BackupDestination) (copy : AuditedCopy) : Prop :=
  (∀ (conn : Connection) (site : Site),
    ExactRun Site.get (deleteRevisionReplicaFtp conn lib ftp copy)
      (remoteDirectory copy.replica.remotePath) (expectedNames lib copy)
      (expectedNames lib copy ++ (expectedNames lib copy).map temporaryName) site) ∧
  ∀ (mount : Mount) (root : Except DestinationError Unit) (tree : MountedTree),
    ExactRun FileTree.get (deleteRevisionReplicaMounted mount root lib mounted copy)
      (remoteDirectory copy.replica.remotePath) (expectedNames lib copy) (expectedNames lib copy)
      tree

end Exactness

section FtpBackend

variable {lib : Library} {destination : BackupDestination} {copy : AuditedCopy}
  {expected : List ExpectedRemoteFile} {path : List String}

theorem temporaryName_ne_manifestName (filename : String) :
    temporaryName filename ≠ manifestName := by
  intro heq
  have hlast := congrArg (fun s : String => s.toList.getLast?) heq
  simp only [toList_temporaryName, List.getLast?_append] at hlast
  have hend : ".part".toList.getLast? = some 't' := rfl
  have hmanifest : manifestName.toList.getLast? = some 'n' := rfl
  rw [hend, hmanifest, Option.some_or] at hlast
  exact absurd (Option.some.inj hlast) (by decide)

/-- What an FTP deletion keeps: the entries that are there are old ones, and the manifest
outlives the artifacts. -/
def Kept (path : List String) (expected : List ExpectedRemoteFile) (site w : Site) : Prop :=
  OnlyRemoves path (allowedEntries expected) site.get w.get ∧
    ManifestKept path (namesOf expected) site.get w.get

theorem fewer_put {w : Site} {name other : String}
    (h : (w.put name path none).get (other :: path) ≠ none) : w.get (other :: path) ≠ none := by
  by_cases hself : other = name
  · subst hself
    rcases Site.get_put_none w other path with hnone | hkept
    · exact absurd hnone h
    · rwa [← hkept]
  · rwa [Site.get_put_of_ne (cons_ne_cons hself)] at h

theorem OnlyRemoves.put {site w : Site} {allowed : List String} {name : String}
    {content : List UInt8} (h : OnlyRemoves path allowed site.get w.get) (hname : name ∈ allowed)
    (hfile : w.get (name :: path) = some (.file content)) :
    OnlyRemoves path allowed site.get (w.put name path none).get :=
  h.file hname hfile (fun _ hne => Site.get_put_of_ne hne) (Site.get_put_none w name path)

theorem runs_keptFiles (conn : Connection) (path : List String) (site : Site)
    (remotePath : String) (hnodup : (namesOf expected).Nodup)
    (hname : manifestName ∈ namesOf expected) :
    Runs (Kept path expected site) (Kept path expected site)
      (deleteFiles conn path remotePath expected)
      (fun _ w => w.get path ≠ some .directory ∧ Kept path expected site w)
      (fun _ w => Kept path expected site w) := by
  have hother : ∀ (w : Site) (name : String), name ≠ manifestName →
      ManifestKept path (namesOf expected) site.get w.get →
        ManifestKept path (namesOf expected) site.get (w.put name path none).get := by
    intro w name hne hkept
    exact hkept.mono (fun _ hthere => fewer_put hthere) (Site.get_put_of_ne (cons_ne_cons hne.symm))
  have hrun := @runs_deleteFiles conn path (Kept path expected site) (Kept path expected site) False
    remotePath expected (fun _ => false) (fun _ hw => hw) (fun _ _ hw => hw) False.elim hnodup
    (fun name hname w content hw hfile => by
      obtain ⟨filename, -, rfl⟩ := List.mem_map.mp hname
      exact ⟨hw.1.put (List.mem_append_right _ hname) hfile,
        hother w _ (temporaryName_ne_manifestName filename) hw.2⟩)
    (fun file hfile hne w content hw hentry =>
      ⟨hw.1.put (List.mem_append_left _ (List.mem_map_of_mem hfile)) hentry,
        hother w _ hne hw.2⟩)
    (fun w content hw hgone hentry => by
      refine ⟨hw.1.put (List.mem_append_left _ hname) hentry, .of_none fun name hmem hne => ?_⟩
      obtain ⟨file, hfile, rfl⟩ := List.mem_map.mp hmem
      exact not_not.mp fun hthere => fewer_put hthere (hgone file hfile hne))
    (fun name parent w hpath hw hentry hnames => by
      subst hpath
      refine ⟨hw.1.directory hentry (fun _ hne => Site.get_put_of_ne hne)
        (Site.get_put_none w name parent), ?_⟩
      have hbelow : ∀ other : String, (w.put name parent none).get (other :: name :: parent) =
          w.get (other :: name :: parent) :=
        fun other => Site.get_put_of_ne (List.cons_ne_self _ _)
      exact hw.2.mono (fun other hthere => by rwa [← hbelow other]) (hbelow manifestName))
    False.elim
  refine (hrun.weaken fun w hw => ⟨False.elim, hw⟩).mono ?_ fun _ _ hw => hw.2
  exact fun _ w hw => ⟨hw.2.1.1, hw.2.2⟩

/-- A directory with an entry that is not allowed is left alone. -/
theorem runs_unknownFiles (conn : Connection) (site : Site) (remotePath : String) {name : String}
    (hthere : site.get (name :: path) ≠ none) (hname : name ∉ allowedEntries expected) :
    Runs (fun w => w.get = site.get) (fun w => w.get = site.get)
      (deleteFiles conn path remotePath expected) (fun _ _ => False)
      (fun _ w => w.get = site.get) := by
  unfold deleteFiles
  refine Runs.bind ((@runs_list conn path (fun w => w.get = site.get) (fun w => w.get = site.get)
    False (fun _ hw => hw) (fun _ _ hw => hw) False.elim False.elim).mono (fun _ _ hw => hw)
    fun _ _ hw => hw.2) fun entries => ?_
  cases entries with
  | none =>
    refine runs_pure fun w ⟨hlisted, hw⟩ => hthere ?_
    rw [← hw]
    exact FileTree.get_cons_of_ne_directory hlisted.1
  | some entries =>
    dsimp only
    have hreject := @runs_rejectUnknown conn path (fun w => w.get = site.get)
      (fun w => w.get = site.get) False (some entries) (allowedEntries expected) False.elim
    refine Runs.bind (hreject.mono (fun _ w hw => ?_) fun _ _ hw => hw.2) fun _ => runs_absurd
    obtain ⟨hall, hlisted, hw⟩ := hw
    refine hname (hall name (not_not.mp fun hnot => hthere ?_))
    rw [← hw]
    exact Listed.get_eq_none hlisted hnot

/-- The errors of an FTP deletion are translated. -/
theorem runs_translated {m : Ftp DeletedRevisionResult} {inv pre : Site → Prop}
    {post : DeletedRevisionResult → Site → Prop} {raised : Site → Prop}
    (h : Runs inv pre m post fun _ w => raised w) :
    Runs inv pre (handle m fun e =>
      match e with
      | .ftp _ => throw (.destination ⟨"DESTINATION_DELETE_FAILED",
          "The FTP revision copy could not be deleted safely."⟩)
      | e => throw e) post (fun _ w => raised w) := by
  refine Runs.handle h fun e => ?_
  cases e with
  | ftp e => exact runs_throw fun w hw => hw
  | destination e => exact runs_throw fun w hw => hw
  | other => exact runs_throw fun w hw => hw

theorem exactRun_ftp (lib : Library) (destination : BackupDestination) (copy : AuditedCopy)
    (conn : Connection) (site : Site) :
    ExactRun Site.get (deleteRevisionReplicaFtp conn lib destination copy)
      (remoteDirectory copy.replica.remotePath) (expectedNames lib copy)
      (expectedNames lib copy ++ (expectedNames lib copy).map temporaryName) site := by
  unfold deleteRevisionReplicaFtp
  cases hset : deletionFileset lib destination copy with
  | error e => exact .of_throw _
  | ok expected =>
    obtain ⟨hfiles, hnodup, -⟩ := deletionFileset_ok hset
    have hnames : expectedNames lib copy = namesOf expected := by
      unfold expectedNames
      rw [hfiles]
    have hmanifest : manifestName ∈ namesOf expected := by
      rw [(expectedFilesOf_ok hfiles).1]
      exact List.mem_map_of_mem (List.mem_append_right _ (List.mem_singleton.mpr rfl))
    rw [hnames]
    have hkept := runs_translated (runs_keptFiles conn (remoteDirectory copy.replica.remotePath) site
      copy.replica.remotePath hnodup hmanifest)
    have hstart : Kept (remoteDirectory copy.replica.remotePath) expected site site :=
      ⟨.refl, fun hbefore _ => hbefore⟩
    have hmoment : ∀ w, _ → Kept (remoteDirectory copy.replica.remotePath) expected site w :=
      fun w hw => hkept.moment hstart (fun _ _ hw => hw.2) (fun _ _ hw => hw) hw
    refine ⟨fun w hw => (hmoment w hw).1, fun w hw => (hmoment w hw).2, ?_,
      fun result d hresult => (hkept.result hstart hresult).1⟩
    rintro ⟨name, hthere, hname⟩
    have hunknown := runs_translated (runs_unknownFiles conn site copy.replica.remotePath
      hthere hname)
    exact ⟨fun w hw => hunknown.moment rfl (fun _ _ hw => hw.elim) (fun _ _ hw => hw) hw,
      fun result d hresult => hunknown.result rfl hresult⟩

end FtpBackend

section MountedBackend

variable {mount : Mount} {path : List String} {inv p : MountedTree → Prop}
  {expected : List ExpectedRemoteFile}

/-- A system call that fails may have taken effect or not. -/
theorem runs_call {α : Type} {f : MountedTree → Except MountedFailure α × MountedTree}
    {pre raised : MountedTree → Prop} {post : α → MountedTree → Prop} (hinv : ∀ w, pre w → inv w)
    (hbefore : ∀ w, pre w → raised w) (hafter : ∀ w, pre w → raised (f w).2)
    (hok : ∀ w a, pre w → (f w).1 = .ok a → post a (f w).2) :
    Runs inv pre (call mount f) post (fun _ w => raised w) := fun c hpassed hc =>
  runs_request hinv hbefore hafter hok (fun w _ hw _ => hafter w hw) c hpassed hc

/-- A call that reads the tree. -/
theorem runs_query {α : Type} {g : MountedTree → Except MountedFailure α}
    (hinv : ∀ w, p w → inv w) :
    Runs inv p (call mount fun w => (g w, w)) (fun a w => g w = .ok a ∧ p w) (fun _ w => p w) :=
  runs_call hinv (fun _ hw => hw) (fun _ hw => hw) fun _ _ hw hok => ⟨hok, hw⟩

theorem get_update_none (w : MountedTree) (name : String) (parent : List String) :
    (w.update name parent none).get (name :: parent) = none ∨
      (w.update name parent none).get (name :: parent) = w.get (name :: parent) := by
  by_cases hadmits : w.Admits name parent none
  · exact Or.inl (FileTree.get_update_self hadmits)
  · rw [FileTree.update_of_not_admits hadmits]
    exact Or.inr rfl

/-- The loop over the rest of the files, the others of which are gone. -/
theorem runs_unlinkExpected (hinv : ∀ w, p w → inv w) (done rest : List ExpectedRemoteFile)
    (hunlink : ∀ front item back, done ++ rest = front ++ item :: back → ∀ w content, p w →
      (∀ other ∈ front, w.get (other.filename :: path) = none) →
        w.get (item.filename :: path) = some (.file content) → p (w.update item.filename path none))
    (counts : DeletionCounts) :
    Runs inv (fun w => (∀ item ∈ done, w.get (item.filename :: path) = none) ∧ p w)
      (unlinkExpected mount path rest counts)
      (fun _ w => (∀ item ∈ done ++ rest, w.get (item.filename :: path) = none) ∧ p w)
      (fun _ w => p w) := by
  induction rest generalizing done counts with
  | nil =>
    refine runs_pure fun w hw => ?_
    rwa [List.append_nil]
  | cons item rest ih =>
    have hsplit : done ++ [item] ++ rest = done ++ item :: rest := by simp
    have hnext := fun counts => (ih (done ++ [item]) (by rwa [hsplit]) counts)
    rw [hsplit] at hnext
    have hdone : ∀ w : MountedTree, (∀ other ∈ done, w.get (other.filename :: path) = none) →
        w.get (item.filename :: path) = none →
          ∀ other ∈ done ++ [item], w.get (other.filename :: path) = none := by
      intro w hgone hself other hother
      rcases List.mem_append.mp hother with hmem | hmem
      · exact hgone other hmem
      · rw [List.mem_singleton.mp hmem]
        exact hself
    have hunlinked : Runs inv (fun w => (∀ other ∈ done, w.get (other.filename :: path) = none) ∧
          p w) (unlink mount item.filename path) (fun _ w => (∀ other ∈ done ++ [item],
          w.get (other.filename :: path) = none) ∧ p w) (fun _ w => p w) := by
      refine runs_call (fun w hw => hinv w hw.2) (fun _ hw => hw.2) (fun w hw => ?_) ?_
      · split
        · rename_i content hentry
          exact hunlink done item rest rfl w content hw.2 hw.1 hentry
        · exact hw.2
      · intro w _ hw hok
        split at hok
        · rename_i content hentry
          refine ⟨hdone _ (fun other hother => ?_) ?_,
            hunlink done item rest rfl w content hw.2 hw.1 hentry⟩
          · by_cases hself : other.filename = item.filename
            · have hnone := hw.1 other hother
              rw [hself, hentry] at hnone
              cases hnone
            · rw [FileTree.get_update_of_ne (cons_ne_cons hself)]
              exact hw.1 other hother
          · refine FileTree.get_update_self (FileTree.Admits.leaf (w.closed item.filename path ?_) ?_)
            · rw [hentry]
              rfl
            · rw [hentry]
              simp
        · cases hok
    unfold unlinkExpected
    refine Runs.bind ((runs_query fun w hw => hinv w hw.2).mono (fun _ _ hw => hw)
      fun _ _ hw => hw.2) fun found => ?_
    split
    · refine Runs.bind (((runs_query fun w hw => hinv w hw.2).weaken fun w hw => hw.2).mono
        (fun _ _ hw => hw) fun _ _ hw => hw.2) fun regular => ?_
      split
      · refine Runs.bind ((runs_query fun w hw => hinv w hw.2.2).mono (fun _ _ hw => hw)
          fun _ _ hw => hw.2.2) fun size => ?_
        exact Runs.bind (hunlinked.weaken fun w hw => hw.2.2) fun _ => hnext _
      · exact runs_throw fun w hw => hw.2.2
    · rename_i hfound
      refine (hnext _).weaken fun w hw => ⟨hdone w hw.2.1 ?_, hw.2.2⟩
      have hnone := Except.ok.inj hw.1
      rw [Bool.not_eq_true] at hfound
      rw [hfound] at hnone
      simpa using hnone

/-- Removing a directory keeps what taking it away keeps. -/
theorem runs_rmdir (hinv : ∀ w, p w → inv w)
    (hrmdir : ∀ name parent w, path = name :: parent → p w → w.get path = some .directory →
      p (w.update name parent none)) :
    Runs inv p (rmdir mount path) (fun _ w => w.get path = none ∧ p w) (fun _ w => p w) := by
  refine runs_call hinv (fun _ hw => hw) (fun w hw => ?_) ?_
  · split
    · rename_i name parent hentry
      split
      · exact hrmdir name parent w rfl hw hentry
      · exact hw
    · exact hw
  · intro w _ hw hok
    split at hok
    · rename_i name parent hentry
      split at hok
      · rename_i hnames
        rw [if_pos hnames]
        refine ⟨FileTree.get_update_self ⟨w.closed name parent ?_, Or.inr hnames⟩,
          hrmdir name parent w rfl hw hentry⟩
        rw [hentry]
        rfl
      · cases hok
    · cases hok

/-- The deletion in a mounted directory keeps what its steps keep. -/
theorem runs_deleteMountedFiles {remotePath : String} (hinv : ∀ w, p w → inv w)
    (hunlink : ∀ front item back, expected = front ++ item :: back → ∀ w content, p w →
      (∀ other ∈ front, w.get (other.filename :: path) = none) →
        w.get (item.filename :: path) = some (.file content) → p (w.update item.filename path none))
    (hrmdir : ∀ name parent w, path = name :: parent → p w → w.get path = some .directory →
      p (w.update name parent none)) :
    Runs inv p (deleteMountedFiles mount path remotePath expected)
      (fun _ w => w.get path = none ∧ p w) (fun _ w => p w) := by
  have hloop := @runs_unlinkExpected mount path inv p hinv [] expected hunlink ⟨0, 0, 0⟩
  have hdirectory : Runs inv p (unlinkDirectory mount path expected)
      (fun _ w => w.get path = none ∧ p w) (fun _ w => p w) := by
    refine Runs.bind ((hloop.weaken fun w hw => ⟨nofun, hw⟩).mono (fun _ _ hw => hw.2)
      fun _ _ hw => hw) fun counts => ?_
    exact Runs.bind (runs_rmdir hinv hrmdir) fun _ => runs_pure fun _ hw => hw
  unfold deleteMountedFiles
  refine Runs.bind (runs_query hinv) fun found => ?_
  split
  · refine Runs.bind ((runs_query hinv).weaken fun w hw => hw.2) fun actualNames => ?_
    split
    · refine Runs.bind ((Runs.handle hdirectory fun e => ?_).weaken fun w hw => hw.2) fun counts => ?_
      · exact runs_throw fun w hw => hw
      · exact runs_pure fun _ hw => hw
    · exact runs_throw fun w hw => hw.2
  · rename_i hfound
    refine runs_pure fun w hw => ⟨?_, hw.2⟩
    have hnone := Except.ok.inj hw.1
    rw [Bool.not_eq_true] at hfound
    rw [hfound] at hnone
    simpa using hnone

/-- An unknown entry stops the deletion. -/
theorem runs_unknownMounted {remotePath : String} {tree : MountedTree} {name : String}
    (hthere : tree.get (name :: path) ≠ none) (hname : name ∉ namesOf expected) :
    Runs (fun w => w.get = tree.get) (fun w => w.get = tree.get)
      (deleteMountedFiles mount path remotePath expected) (fun _ _ => False)
      (fun _ w => w.get = tree.get) := by
  have hparent : tree.get path = some .directory :=
    tree.closed name path (Option.isSome_iff_ne_none.mpr hthere)
  unfold deleteMountedFiles
  refine Runs.bind (runs_query fun _ hw => hw) fun found => ?_
  split
  · refine Runs.bind ((runs_query fun _ hw => hw).weaken fun w hw => hw.2) fun actualNames => ?_
    split
    · rename_i hall
      refine Runs.weaken runs_absurd fun w hw => hname ?_
      obtain ⟨hlisted, hw⟩ := hw
      rw [hw, if_pos hparent] at hlisted
      have hmem : name ∈ w.names path := by
        rw [w.mem_names, hw]
        exact Option.isSome_iff_ne_none.mpr hthere
      rw [Except.ok.inj hlisted] at hmem
      exact List.contains_iff_mem.mp (List.all_eq_true.mp hall name hmem)
    · exact runs_throw fun w hw => hw.2
  · rename_i hfound
    refine runs_pure fun w hw => hfound ?_
    rw [← Except.ok.inj hw.1, hw.2, hparent]
    rfl

/-- No file under the manifest's name comes before a file under another name. -/
def ManifestLast (expected : List ExpectedRemoteFile) : Prop :=
  ∀ front item back, expected = front ++ item :: back → item.filename = manifestName →
    ∀ other ∈ back, other.filename = manifestName

theorem runs_keptMounted {remotePath : String} (hlast : ManifestLast expected) (tree : MountedTree) :
    Runs (fun w => OnlyRemoves path (namesOf expected) tree.get w.get ∧
        ManifestKept path (namesOf expected) tree.get w.get)
      (fun w => OnlyRemoves path (namesOf expected) tree.get w.get ∧
        ManifestKept path (namesOf expected) tree.get w.get)
      (deleteMountedFiles mount path remotePath expected)
      (fun _ w => w.get path = none ∧ OnlyRemoves path (namesOf expected) tree.get w.get ∧
        ManifestKept path (namesOf expected) tree.get w.get)
      (fun _ w => OnlyRemoves path (namesOf expected) tree.get w.get ∧
        ManifestKept path (namesOf expected) tree.get w.get) := by
  have hfewer : ∀ (w : MountedTree) (name other : String),
      (w.update name path none).get (other :: path) ≠ none → w.get (other :: path) ≠ none := by
    intro w name other hthere
    by_cases hself : other = name
    · subst hself
      rcases get_update_none w other path with hnone | hkept
      · exact absurd hnone hthere
      · rwa [← hkept]
    · rwa [FileTree.get_update_of_ne (cons_ne_cons hself)] at hthere
  refine runs_deleteMountedFiles (fun _ hw => hw) ?_ ?_
  · rintro front item back hsplit w content ⟨honly, hkept⟩ hgone hentry
    have hmem : item.filename ∈ namesOf expected :=
      List.mem_map_of_mem (by rw [hsplit]; simp)
    refine ⟨honly.file hmem hentry (fun _ hne => FileTree.get_update_of_ne hne)
      (get_update_none w item.filename path), ?_⟩
    by_cases hname : item.filename = manifestName
    · -- the manifest goes after everything that has another name
      refine .of_none fun name hmem hne => not_not.mp fun hthere => ?_
      obtain ⟨file, hfile, rfl⟩ := List.mem_map.mp hmem
      rw [hsplit, List.mem_append, List.mem_cons] at hfile
      rcases hfile with hfront | rfl | hback
      · exact hfewer w _ _ hthere (hgone file hfront)
      · exact hne hname
      · exact hne (hlast front item back hsplit hname file hback)
    · exact hkept.mono (fun other => hfewer w _ other)
        (FileTree.get_update_of_ne (cons_ne_cons (Ne.symm hname)))
  · rintro name parent w rfl ⟨honly, hkept⟩ hentry
    refine ⟨honly.directory hentry (fun _ hne => FileTree.get_update_of_ne hne)
      (get_update_none w name parent), ?_⟩
    have hbelow : ∀ other : String, (w.update name parent none).get (other :: name :: parent) =
        w.get (other :: name :: parent) :=
      fun other => FileTree.get_update_of_ne (List.cons_ne_self _ _)
    exact hkept.mono (fun other hthere => by rwa [← hbelow other]) (hbelow manifestName)

theorem call_answered {α : Type} {f : MountedTree → Except MountedFailure α × MountedTree} {a : α}
    {c : Client MountedTree} (hfate : mount.fates c.passed.length = .answered)
    (hreply : (f c.world).1 = .ok a) :
    call mount f c = .ok a ⟨(f c.world).2, c.passed ++ [c.world]⟩ := by
  unfold call request
  simp only [hfate, hreply]

theorem call_unanswered {α : Type} {f : MountedTree → Except MountedFailure α × MountedTree}
    {c : Client MountedTree} (hfate : mount.fates c.passed.length = .unanswered) :
    call mount f c = .error (.os (mount.denied c.passed.length))
      ⟨(f c.world).2, c.passed ++ [c.world]⟩ := by
  unfold call request
  simp only [hfate]

/-- The loop passes over the files that are not there. -/
theorem unlinkExpected_absent (front rest : List ExpectedRemoteFile) (counts : DeletionCounts)
    (c : Client MountedTree)
    (hfates : ∀ n, n < c.passed.length + front.length → mount.fates n = .answered)
    (habsent : ∀ file ∈ front, c.world.get (file.filename :: path) = none) :
    ∃ counts', unlinkExpected mount path (front ++ rest) counts c =
      unlinkExpected mount path rest counts'
        ⟨c.world, c.passed ++ List.replicate front.length c.world⟩ := by
  induction front generalizing counts c with
  | nil =>
    refine ⟨counts, ?_⟩
    rw [List.length_nil, List.replicate_zero, List.append_nil, List.nil_append]
  | cons file front ih =>
    rw [List.length_cons] at hfates
    have hexists : pathExists mount (file.filename :: path) c =
        .ok false ⟨c.world, c.passed ++ [c.world]⟩ :=
      call_answered (hfates _ (by omega)) (by rw [habsent file List.mem_cons_self]; rfl)
    obtain ⟨counts', hrest⟩ := ih { counts with missing := counts.missing + 1 }
      ⟨c.world, c.passed ++ [c.world]⟩
      (fun n hn => hfates n (by rw [List.length_append, List.length_singleton] at hn; omega))
      fun other hother => habsent other (List.mem_cons_of_mem _ hother)
    refine ⟨counts', ?_⟩
    rw [List.cons_append, unlinkExpected, bind_ok hexists, if_neg Bool.false_ne_true, hrest]
    rw [List.length_cons, List.replicate_succ, List.append_assoc, List.singleton_append]

/-- A tree with two files in a directory. -/
def treeWith (path : List String) (first second : String) : MountedTree :=
  ((FileTree.directories path).update first path (some (.file (.regular [])))).update second path
    (some (.file (.regular [])))

theorem get_treeWith (path : List String) (first second : String) :
    (treeWith path first second).get path = some .directory ∧
      (treeWith path first second).get (first :: path) = some (.file (.regular [])) ∧
      (treeWith path first second).get (second :: path) = some (.file (.regular [])) ∧
      ∀ name, name ≠ first → name ≠ second →
        (treeWith path first second).get (name :: path) = none := by
  obtain ⟨hdir, hlonger⟩ := @FileTree.get_directories String MountedContent _ _ path
  have hnone : ∀ name : String,
      (FileTree.directories path : MountedTree).get (name :: path) = none :=
    fun name => hlonger _ (Nat.lt_succ_self _)
  have hself : ∀ name : String, path ≠ name :: path := fun name => (List.cons_ne_self _ _).symm
  have hfirst : (FileTree.directories path : MountedTree).Admits first path
      (some (.file (.regular []))) := .leaf hdir (by rw [hnone]; simp)
  have hdir' : ((FileTree.directories path : MountedTree).update first path
      (some (.file (.regular [])))).get path = some .directory := by
    rw [FileTree.get_update_of_ne (hself first)]
    exact hdir
  have hsecond : ((FileTree.directories path : MountedTree).update first path
      (some (.file (.regular [])))).Admits second path (some (.file (.regular []))) := by
    refine .leaf hdir' ?_
    rw [FileTree.get_update hfirst]
    split
    · simp
    · rw [hnone]
      simp
  unfold treeWith
  refine ⟨?_, ?_, FileTree.get_update_self hsecond, fun name hne hne' => ?_⟩
  · rw [FileTree.get_update_of_ne (hself second)]
    exact hdir'
  · rw [FileTree.get_update hsecond]
    split
    · rfl
    · exact FileTree.get_update_self hfirst
  · rw [FileTree.get_update_of_ne (cons_ne_cons hne'), FileTree.get_update_of_ne (cons_ne_cons hne)]
    exact hnone name

/-- A manifest that comes before an artifact can go before it. -/
theorem manifest_lost {remotePath : String} {front back : List ExpectedRemoteFile}
    {item other : ExpectedRemoteFile} (hsplit : expected = front ++ item :: back)
    (hitem : item.filename = manifestName) (hmem : other ∈ back)
    (hother : other.filename ≠ manifestName)
    (hfront : ∀ file ∈ front, file.filename ≠ manifestName ∧ file.filename ≠ other.filename) :
    ∃ (mount : Mount) (tree w : MountedTree),
      Moment (deleteMountedFiles mount path remotePath expected) tree w ∧
        ¬ ManifestKept path (namesOf expected) tree.get w.get := by
  -- the manifest is removed, and the call that removes it fails
  let mount : Mount := ⟨fun n => if n = front.length + 5 then .unanswered else .answered,
    fun _ => false⟩
  let tree := treeWith path manifestName other.filename
  obtain ⟨hdir, hmanifest, hartifact, hnone⟩ := get_treeWith path manifestName other.filename
  have hanswered : ∀ n, n ≠ front.length + 5 → mount.fates n = .answered := fun n hn => if_neg hn
  have hnames : other.filename ∈ namesOf expected :=
    List.mem_map_of_mem (by rw [hsplit]; simp [hmem])
  have hmanifestName : manifestName ∈ namesOf expected :=
    List.mem_map.mpr ⟨item, by rw [hsplit]; simp, hitem⟩
  have hloop : ∃ e passed, unlinkExpected mount path expected ⟨0, 0, 0⟩ ⟨tree, [tree, tree]⟩ =
      .error e ⟨tree.update manifestName path none, passed⟩ := by
    obtain ⟨counts, hskip⟩ := @unlinkExpected_absent mount path front (item :: back) ⟨0, 0, 0⟩
      ⟨tree, [tree, tree]⟩
      (fun n hn => hanswered n (by simp only [List.length_cons, List.length_nil] at hn; omega))
      fun file hfile => hnone _ (hfront file hfile).1 (hfront file hfile).2
    rw [hsplit, hskip]
    let passed := [tree, tree] ++ List.replicate front.length tree
    have hlength : passed.length = front.length + 2 := by
      simp only [passed, List.length_append, List.length_cons, List.length_nil,
        List.length_replicate]
      omega
    have hexists : pathExists mount (item.filename :: path) ⟨tree, passed⟩ =
        .ok true ⟨tree, passed ++ [tree]⟩ :=
      call_answered (hanswered _ (by rw [hlength]; omega)) (by rw [hitem, hmanifest]; rfl)
    have hregular : isRegularFile mount (item.filename :: path) ⟨tree, passed ++ [tree]⟩ =
        .ok true ⟨tree, passed ++ [tree] ++ [tree]⟩ :=
      call_answered (hanswered _ (by simp only [List.length_append, hlength, List.length_singleton]
                                     omega))
        (by rw [hitem, hmanifest])
    have hsize : statSize mount (item.filename :: path) ⟨tree, passed ++ [tree] ++ [tree]⟩ =
        .ok 0 ⟨tree, passed ++ [tree] ++ [tree] ++ [tree]⟩ :=
      call_answered (hanswered _ (by simp only [List.length_append, hlength, List.length_singleton]
                                     omega))
        (by rw [hitem, hmanifest]; rfl)
    have hunlink : unlink mount item.filename path ⟨tree, passed ++ [tree] ++ [tree] ++ [tree]⟩ =
        .error (.os false) ⟨tree.update manifestName path none,
          passed ++ [tree] ++ [tree] ++ [tree] ++ [tree]⟩ := by
      have hfate : mount.fates (passed ++ [tree] ++ [tree] ++ [tree]).length = .unanswered :=
        if_pos (by simp only [List.length_append, hlength, List.length_singleton])
      have hentry : tree.get (manifestName :: path) = some (.file (.regular [])) := hmanifest
      unfold unlink
      rw [hitem, call_unanswered hfate]
      simp only [hentry]
      rfl
    refine ⟨.os false, passed ++ [tree] ++ [tree] ++ [tree] ++ [tree], ?_⟩
    rw [unlinkExpected, bind_ok hexists, if_pos rfl, bind_ok hregular, if_pos rfl, bind_ok hsize]
    exact bind_error hunlink
  have hwhole : ∃ e passed, deleteMountedFiles mount path remotePath expected ⟨tree, []⟩ =
      .error e ⟨tree.update manifestName path none, passed⟩ := by
    obtain ⟨e, passed, hloop⟩ := hloop
    have hexists : pathExists mount path ⟨tree, []⟩ = .ok true ⟨tree, [tree]⟩ :=
      call_answered (hanswered 0 (by omega)) (by rw [hdir]; rfl)
    have hiterdir : iterdir mount path ⟨tree, [tree]⟩ = .ok (tree.names path) ⟨tree, [tree, tree]⟩ :=
      call_answered (hanswered 1 (by omega)) (if_pos hdir)
    have hall : (tree.names path).all (namesOf expected).contains = true := by
      rw [List.all_eq_true]
      intro name hname
      rw [List.contains_iff_mem]
      have hthere := Option.isSome_iff_ne_none.mp ((tree.mem_names name path).mp hname)
      by_cases hfirst : name = manifestName
      · exact hfirst ▸ hmanifestName
      · by_cases hsecond : name = other.filename
        · exact hsecond ▸ hnames
        · exact absurd (hnone name hfirst hsecond) hthere
    have hdirectory : unlinkDirectory mount path expected ⟨tree, [tree, tree]⟩ =
        .error e ⟨tree.update manifestName path none, passed⟩ := bind_error hloop
    refine ⟨deletionError e, passed, ?_⟩
    rw [deleteMountedFiles, bind_ok hexists, if_pos rfl, bind_ok hiterdir, if_pos hall]
    exact bind_error (handle_error hdirectory)
  obtain ⟨e, passed, hwhole⟩ := hwhole
  refine ⟨mount, tree, tree.update manifestName path none, ?_, fun hkept => ?_⟩
  · unfold Moment
    rw [hwhole]
    exact Or.inr rfl
  · have hadmits : tree.Admits manifestName path none := by
      refine .leaf hdir ?_
      rw [hmanifest]
      simp
    refine hkept (by rw [hmanifest]; simp) ⟨other.filename, hnames, hother, ?_⟩
      (FileTree.get_update_self hadmits)
    rw [FileTree.get_update_of_ne (cons_ne_cons hother), hartifact]
    simp

end MountedBackend

section Backends

variable {lib : Library} {destination : BackupDestination} {copy : AuditedCopy}
  {expected : List ExpectedRemoteFile}

/-- The expected names of a mounted deletion: those of the artifacts, which differ, and the
manifest's. -/
theorem mountedFileset_ok (h : mountedFileset lib destination copy = .ok expected) :
    expectedNames lib copy = namesOf expected ∧
      ∃ artifacts : List String, namesOf expected = artifacts ++ [manifestName] ∧ artifacts.Nodup := by
  unfold mountedFileset at h
  split at h
  · cases h
  split at h
  · cases h
  cases hpath : validateRecordedRevisionPath lib.nfkd destination copy.revision
      copy.target.deviceId copy.replica.remotePath "DELETE_PATH_INVALID" with
  | error e =>
    rw [hpath] at h
    cases h
  | ok found =>
    rw [hpath] at h
    obtain ⟨rfl, hnodup⟩ := expectedFilesOf_ok h
    refine ⟨?_, _, List.map_append, hnodup⟩
    unfold expectedNames namesOf
    rw [expectedFilesOf_eq hnodup]
    simp only [List.map_append, List.map_singleton]
    rfl

theorem exactRun_mounted
    (hlast : ∀ expected, mountedFileset lib destination copy = .ok expected → ManifestLast expected)
    (mount : Mount) (root : Except DestinationError Unit) (tree : MountedTree) :
    ExactRun FileTree.get (deleteRevisionReplicaMounted mount root lib destination copy)
      (remoteDirectory copy.replica.remotePath) (expectedNames lib copy) (expectedNames lib copy)
      tree := by
  unfold deleteRevisionReplicaMounted
  cases hset : mountedFileset lib destination copy with
  | error e => exact .of_throw _
  | ok expected =>
    cases root with
    | error e => exact .of_throw _
    | ok u =>
      rw [(mountedFileset_ok hset).1]
      have hkept := @runs_keptMounted mount (remoteDirectory copy.replica.remotePath) expected
        copy.replica.remotePath (hlast expected hset) tree
      have hstart : OnlyRemoves (remoteDirectory copy.replica.remotePath) (namesOf expected) tree.get
          tree.get ∧ ManifestKept (remoteDirectory copy.replica.remotePath) (namesOf expected)
            tree.get tree.get := ⟨.refl, fun hbefore _ => hbefore⟩
      refine ⟨fun w hw => (hkept.moment hstart (fun _ _ hw => hw.2) (fun _ _ hw => hw) hw).1,
        fun w hw => (hkept.moment hstart (fun _ _ hw => hw.2) (fun _ _ hw => hw) hw).2, ?_,
        fun result d hresult hentry => ?_⟩
      · rintro ⟨name, hthere, hname⟩
        have hunknown := @runs_unknownMounted mount (remoteDirectory copy.replica.remotePath)
          expected copy.replica.remotePath tree name hthere hname
        exact ⟨fun w hw => hunknown.moment rfl (fun _ _ hw => hw.elim) (fun _ _ hw => hw) hw,
          fun result d hresult => hunknown.result rfl hresult⟩
      · rw [(hkept.result hstart hresult).1] at hentry
        cases hentry

/-- Where a mounted deletion always keeps the manifest, no artifact comes after its name. -/
theorem manifestLast_of_exactRun
    (hexact : ∀ (mount : Mount) (tree : MountedTree),
      ExactRun FileTree.get (deleteRevisionReplicaMounted mount (.ok ()) lib destination copy)
        (remoteDirectory copy.replica.remotePath) (expectedNames lib copy) (expectedNames lib copy)
        tree) (hset : mountedFileset lib destination copy = .ok expected) : ManifestLast expected := by
  intro front item back hsplit hitem other hmem
  by_contra hother
  obtain ⟨hnames, artifacts, hartifacts, hnodup⟩ := mountedFileset_ok hset
  have hback : back ≠ [] := List.ne_nil_of_mem hmem
  have hlist : namesOf front ++ manifestName :: (namesOf back).dropLast = artifacts := by
    have hdrop := congrArg List.dropLast hartifacts
    rw [List.dropLast_concat, hsplit] at hdrop
    rw [← hdrop]
    unfold namesOf
    rw [List.map_append, List.map_cons, List.dropLast_append_of_ne_nil (List.cons_ne_nil _ _),
      List.dropLast_cons_of_ne_nil (by simpa using hback), hitem]
  have hlater : other.filename ∈ (namesOf back).dropLast := by
    have hmem' : other.filename ∈ namesOf back := List.mem_map_of_mem hmem
    have hne : namesOf back ≠ [] := by simpa [namesOf] using hback
    rw [← List.dropLast_append_getLast hne, List.mem_append, List.mem_singleton] at hmem'
    refine hmem'.resolve_right fun heq => hother ?_
    have hend := congrArg List.getLast? hartifacts
    rw [hsplit] at hend
    unfold namesOf at hend
    rw [List.map_append, List.map_cons, List.getLast?_append_of_ne_nil _ (List.cons_ne_nil _ _),
      List.getLast?_cons_of_ne_nil (by simpa using hback), List.getLast?_concat] at hend
    rw [heq]
    exact Option.some.inj ((List.getLast?_eq_some_getLast hne).symm.trans hend)
  rw [← hlist] at hnodup
  have hfront : ∀ file ∈ front, file.filename ≠ manifestName ∧
      file.filename ≠ other.filename := by
    intro file hfile
    have hdisjoint := List.disjoint_of_nodup_append hnodup
    have hname : file.filename ∈ namesOf front := List.mem_map_of_mem hfile
    exact ⟨fun heq => hdisjoint hname (heq ▸ List.mem_cons_self),
      fun heq => hdisjoint hname (heq ▸ List.mem_cons_of_mem _ hlater)⟩
  obtain ⟨mount, tree, w, hmoment, hlost⟩ :=
    @manifest_lost (remoteDirectory copy.replica.remotePath) expected copy.replica.remotePath front
      back item other hsplit hitem hmem hother hfront
  have hrun := hexact mount tree
  rw [hnames] at hrun
  refine hlost (hrun.manifest w ?_)
  unfold deleteRevisionReplicaMounted
  rw [hset]
  exact hmoment

/-- A copy in the old layout whose first artifact is stored under the manifest's name. -/
def namesakeCopy : AuditedCopy :=
  { exampleAuditedCopy with
    artifacts := exampleAuditedCopy.artifacts.map (fun artifact =>
      { artifact with artifactType := "notes", storageKey := "device/_netbox_manifest.json" }) ++
        exampleAuditedCopy.artifacts }

end Backends

end ConfigBackup.MountedDeletion
