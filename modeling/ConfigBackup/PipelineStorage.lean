import ConfigBackup.LocalStorage
import ConfigBackup.RestorableBackups
import ConfigBackup.Transactions

/-!
The backup pipeline over the local file storage, with a fault at any of its steps.
Every repository call and every step of a put may raise. The rollback deletes the
files whose puts returned, so a put that raises after its rename keeps its file.
-/

namespace ConfigBackup.PipelineStorage

open BackupPipeline Calendar ExceptLoops FinishedRuns LocalStorage Models Repository
  RestorableBackups RunLifecycle Tables Transactions

/-- The files, and the keys that a rollback knows. -/
structure StorageWorld where
  objects : Objects
  storedKeys : List String

/-- Which repository calls raise, at which step a put raises, which deletions of the
rollback raise, and whether recording the failure raises. -/
structure ExecutionFaults where
  repository : ℕ → Bool
  put : ℕ → Option (PutStep × Raised)
  delete : ℕ → Bool
  markFailed : Bool

abbrev Execution (α : Type) := Program Database StorageWorld Raised α

def invalidStorageKey : Raised := .expected "STORAGE_FAILED" "Invalid storage key."

section Program

variable (env : PipelineEnvironment) (faults : ExecutionFaults)

def storedRecord (deviceId : ℕ) (item : PreparedArtifact) (size : ℕ) : StoredArtifactRecord where
  artifactType := item.artifact.artifactType
  format := item.artifact.format
  storageKey := artifactKey env deviceId item
  size := size
  rawHash := item.rawHash
  normalizedHash := item.normalizedHash
  isPrimary := item.isPrimary

/-- Put one file; its key is known to the rollback once the put has returned. -/
def putArtifact (deviceId : ℕ) (item : PreparedArtifact) : Execution StoredArtifactRecord :=
  fun s =>
    let key := artifactKey env deviceId item
    match put invalidStorageKey (faults.put s.world.storedKeys.length) key item.artifact.content
        s.world.objects with
    | (.error e, objects) => .error e { s with world := ⟨objects, s.world.storedKeys⟩ }
    | (.ok size, objects) => .ok (storedRecord env deviceId item size)
        { s with world := ⟨objects, s.world.storedKeys ++ [key]⟩ }

def putArtifacts (deviceId : ℕ) : List PreparedArtifact → Execution (List StoredArtifactRecord)
  | [] => pure []
  | item :: rest => do
    let record ← putArtifact env faults deviceId item
    let others ← putArtifacts deviceId rest
    pure (record :: others)

/-- The unique constraint on `storage_key`. -/
def storageKeysFree (db : Database) (keys : List String) : Prop :=
  keys.Nodup ∧ ∀ a ∈ db.artifacts.rows, a.storageKey ∉ keys

instance (db : Database) (keys : List String) : Decidable (storageKeysFree db keys) :=
  inferInstanceAs (Decidable (_ ∧ _))

def commitStored (scheduler : Scheduler) (db : Database) (runId : ℕ)
    (previous : Option ConfigRevision) (commit : RevisionCommit) : Except Raised Database :=
  if storageKeysFree db (commit.artifacts.map (fun r => r.storageKey)) then
    orRaise (commitRevision scheduler db runId previous commit)
  else .error .unexpected

variable (scheduler : Scheduler) (sha256Hex : List UInt8 → String) (runId : ℕ)

/-- The unchanged shortcut. -/
def commitShortcut (context : ExecutionContext) (rawChanged : Bool) : Execution BackupResult :=
  transact faults.repository .unexpected (fun db => do
    let current := env.commitQuery.first (db.targetRevisions context.targetId)
    let committed ← orRaise (commitUnchanged scheduler db runId current rawChanged env.finishedAt)
    pure (⟨runId, .successUnchanged, false, rawChanged, current.map (fun r => r.pk), ""⟩,
      committed))

/-- `commit_revision` on the records of the stored files. -/
def commitRecords (context : ExecutionContext) (collected : Collected)
    (contentChanged rawChanged : Bool) (records : List StoredArtifactRecord) (db : Database) :
    Except Raised (BackupResult × Database) := do
  let committed ← commitStored scheduler db runId
    (env.commitQuery.first (db.targetRevisions context.targetId))
    (revisionCommit env context collected contentChanged rawChanged records)
  pure (⟨runId, if contentChanged then .successChanged else .successUnchanged, contentChanged,
    rawChanged, some db.revisions.next, ""⟩, committed)

/-- Put all files, then commit their revision. -/
def storeCollected (context : ExecutionContext) (collected : Collected)
    (contentChanged rawChanged : Bool) : Execution BackupResult := do
  let records ← putArtifacts env faults context.deviceId collected.prepared
  transact faults.repository .unexpected
    (commitRecords env scheduler runId context collected contentChanged rawChanged records)

/-- The end of the `try` body, with the snapshot of the latest revision. -/
def finishBackup (context : ExecutionContext) (collected : Collected)
    (latest : Option RevisionSnapshot) : Execution BackupResult :=
  let contentChanged := latest.all (fun s => s.normalizedHash != collected.primary.normalizedHash)
  let rawChanged := latest.all (fun s => s.primaryRawHash != collected.primary.rawHash)
  if !contentChanged && context.storeMode == .changedOnly then
    commitShortcut env faults scheduler runId context rawChanged
  else storeCollected env faults scheduler runId context collected contentChanged rawChanged

/-- The body of the `try` statement. -/
def tryBlock : Execution BackupResult := do
  let context ← transact faults.repository .unexpected (fun db => do
    let context ← getExecutionContext env db runId
    pure (context, db))
  transact faults.repository .unexpected (fun db => do
    let running ← orRaise (markRunning db runId env.startedAt)
    pure ((), running))
  let collected ← ofExcept (collectPrepared sha256Hex env context.profile)
  let latest ← transact faults.repository .unexpected (fun db => do
    let latest ← orRaise
      (getLatestRevision db (env.snapshotQuery.first (db.targetRevisions context.targetId)))
    pure (latest, db))
  finishBackup env faults scheduler runId context collected latest

/-- Delete the stored files, the last one first; a deletion that raises is passed over. -/
def rollbackStorage (fails : ℕ → Bool) : List String → Objects → Objects
  | [], objects => objects
  | key :: rest, objects =>
    if fails rest.length then rollbackStorage fails rest objects
    else delete key (rollbackStorage fails rest objects)

structure StoredOutcome where
  result : Option BackupResult
  db : Database
  objects : Objects

/-- `BackupPipeline.execute` on the database and the files. -/
def executeStored (db : Database) (objects : Objects) : StoredOutcome :=
  match tryBlock env faults scheduler sha256Hex runId ⟨db, ⟨objects, []⟩, 0⟩ with
  | .ok result t => ⟨some result, t.db, t.world.objects⟩
  | .error e t =>
    let objects := rollbackStorage faults.delete t.world.storedKeys t.world.objects
    if faults.markFailed then ⟨none, t.db, objects⟩
    else
      let outcome := recordFailure scheduler env runId t.db e
      ⟨outcome.result, outcome.db, objects⟩

end Program

section Puts

variable {env : PipelineEnvironment} {faults : ExecutionFaults} {deviceId : ℕ}

/-- No put of the files raises. -/
def PutsReturn (env : PipelineEnvironment) (faults : ExecutionFaults) (deviceId : ℕ)
    (items : List PreparedArtifact) : Prop :=
  (∀ item ∈ items, localPath (artifactKey env deviceId item) ≠ none) ∧
    ∀ n < items.length, faults.put n = none

/-- The put raises after the file is visible at the path. -/
def RaisesVisible (env : PipelineEnvironment) (faults : ExecutionFaults) (deviceId n : ℕ)
    (item : PreparedArtifact) (path : Path) : Prop :=
  localPath (artifactKey env deviceId item) = some path ∧
    ∃ step e, faults.put n = some (step, e) ∧ step.afterRename = true

/-- The first put that raises leaves a file that no earlier put has written. -/
def Orphaned (env : PipelineEnvironment) (faults : ExecutionFaults) (deviceId : ℕ)
    (objects : Objects) (items : List PreparedArtifact) : Prop :=
  ∃ before item after path, items = before ++ item :: after ∧
    PutsReturn env faults deviceId before ∧
    RaisesVisible env faults deviceId before.length item path ∧
    (∀ other ∈ before, localPath (artifactKey env deviceId other) ≠ some path) ∧
    objects path ≠ some item.artifact.content

/-- The files of the items, written one after the other. -/
def withArtifacts (env : PipelineEnvironment) (deviceId : ℕ) (objects : Objects)
    (items : List PreparedArtifact) : Objects :=
  items.foldl (fun o item => withFile (artifactKey env deviceId item) item.artifact.content o)
    objects

/-- What the loop leaves when a put raises: the files before it, and perhaps its own. -/
def PutRaised (env : PipelineEnvironment) (faults : ExecutionFaults) (deviceId : ℕ)
    (objects : Objects) (items : List PreparedArtifact) (world : StorageWorld) : Prop :=
  ∃ before item after, items = before ++ item :: after ∧
    PutsReturn env faults deviceId before ∧ ¬ PutsReturn env faults deviceId (before ++ [item]) ∧
    world.storedKeys = before.map (artifactKey env deviceId) ∧
    ((world.objects = withArtifacts env deviceId objects before ∧
        ∀ path, ¬ RaisesVisible env faults deviceId before.length item path) ∨
      ∃ path, RaisesVisible env faults deviceId before.length item path ∧
        world.objects = withObject (withArtifacts env deviceId objects before) path
          item.artifact.content)

theorem putsReturn_append {before after : List PreparedArtifact}
    (h : PutsReturn env faults deviceId (before ++ after)) :
    PutsReturn env faults deviceId before := by
  refine ⟨fun item hitem => h.1 item (List.mem_append_left _ hitem), fun n hn => h.2 n ?_⟩
  rw [List.length_append]
  omega

theorem putsReturn_snoc {before : List PreparedArtifact} {item : PreparedArtifact} :
    PutsReturn env faults deviceId (before ++ [item]) ↔
      PutsReturn env faults deviceId before ∧
        localPath (artifactKey env deviceId item) ≠ none ∧ faults.put before.length = none := by
  constructor
  · intro h
    refine ⟨putsReturn_append h, h.1 item (by simp), h.2 _ ?_⟩
    simp
  · intro ⟨hbefore, hpath, hfault⟩
    refine ⟨?_, ?_⟩
    · intro other hother
      rcases List.mem_append.mp hother with hother | hother
      · exact hbefore.1 other hother
      · rw [List.mem_singleton.mp hother]
        exact hpath
    · intro n hn
      rw [List.length_append, List.length_singleton] at hn
      rcases Nat.lt_succ_iff_lt_or_eq.mp hn with hlt | heq
      · exact hbefore.2 n hlt
      · rw [heq]
        exact hfault

/-- Only one put can be the first that raises. -/
theorem firstRaised_unique {before before' after after' : List PreparedArtifact}
    {item item' : PreparedArtifact} (hsplit : before ++ item :: after = before' ++ item' :: after')
    (hbefore : PutsReturn env faults deviceId before)
    (hraised : ¬ PutsReturn env faults deviceId (before ++ [item]))
    (hbefore' : PutsReturn env faults deviceId before')
    (hraised' : ¬ PutsReturn env faults deviceId (before' ++ [item'])) :
    before = before' ∧ item = item' := by
  rcases List.append_eq_append_iff.mp hsplit with ⟨middle, hlong, hrest⟩ | ⟨middle, hlong, hrest⟩
  · cases middle with
    | nil =>
      rw [List.nil_append, List.cons.injEq] at hrest
      rw [List.append_nil] at hlong
      exact ⟨hlong.symm, hrest.1⟩
    | cons first middle =>
      rw [List.cons_append, List.cons.injEq] at hrest
      rw [hlong, ← hrest.1, List.append_cons] at hbefore'
      exact absurd (putsReturn_append hbefore') hraised
  · cases middle with
    | nil =>
      rw [List.nil_append, List.cons.injEq] at hrest
      rw [List.append_nil] at hlong
      exact ⟨hlong, hrest.1.symm⟩
    | cons first middle =>
      rw [List.cons_append, List.cons.injEq] at hrest
      rw [hlong, ← hrest.1, List.append_cons] at hbefore
      exact absurd (putsReturn_append hbefore) hraised'

theorem withArtifacts_other {items : List PreparedArtifact} {path : Path}
    (h : ∀ item ∈ items, localPath (artifactKey env deviceId item) ≠ some path)
    (objects : Objects) : withArtifacts env deviceId objects items path = objects path := by
  induction items generalizing objects with
  | nil => rfl
  | cons item rest ih =>
    have hrest := ih (fun other hother => h other (List.mem_cons_of_mem _ hother))
    unfold withArtifacts at hrest ⊢
    rw [List.foldl_cons, hrest]
    exact withFile_other (h item List.mem_cons_self) _ _

theorem withArtifacts_snoc (objects : Objects) (before : List PreparedArtifact)
    (item : PreparedArtifact) : withArtifacts env deviceId objects (before ++ [item]) =
      withFile (artifactKey env deviceId item) item.artifact.content
        (withArtifacts env deviceId objects before) := by
  unfold withArtifacts
  rw [List.foldl_append]
  rfl

/-- The loop continues after a put that returned. -/
theorem putArtifact_ok {item : PreparedArtifact} {record : StoredArtifactRecord}
    {s t : Session Database StorageWorld}
    (h : putArtifact env faults deviceId item s = .ok record t) :
    localPath (artifactKey env deviceId item) ≠ none ∧
      faults.put s.world.storedKeys.length = none ∧
      record = storedRecord env deviceId item item.artifact.content.length ∧
      t = { s with world := ⟨withFile (artifactKey env deviceId item) item.artifact.content
        s.world.objects, s.world.storedKeys ++ [artifactKey env deviceId item]⟩ } := by
  unfold putArtifact put at h
  unfold withFile
  cases hpath : localPath (artifactKey env deviceId item) with
  | none => simp [hpath] at h
  | some path =>
    cases hfault : faults.put s.world.storedKeys.length with
    | some fault => simp [hpath, hfault] at h
    | none =>
      simp only [hpath, hfault] at h
      cases h
      exact ⟨by simp, rfl, rfl, rfl⟩

theorem putArtifact_error {item : PreparedArtifact} {e : Raised}
    {s t : Session Database StorageWorld}
    (h : putArtifact env faults deviceId item s = .error e t) :
    (localPath (artifactKey env deviceId item) = none ∨
        faults.put s.world.storedKeys.length ≠ none) ∧
      t.db = s.db ∧ t.world.storedKeys = s.world.storedKeys ∧
      ((t.world.objects = s.world.objects ∧ ∀ path,
          ¬ RaisesVisible env faults deviceId s.world.storedKeys.length item path) ∨
        ∃ path, RaisesVisible env faults deviceId s.world.storedKeys.length item path ∧
          t.world.objects = withObject s.world.objects path item.artifact.content) := by
  unfold putArtifact put at h
  cases hpath : localPath (artifactKey env deviceId item) with
  | none =>
    simp only [hpath] at h
    cases h
    refine ⟨Or.inl rfl, rfl, rfl, Or.inl ⟨rfl, ?_⟩⟩
    intro path hvisible
    rw [hvisible.1] at hpath
    cases hpath
  | some path =>
    cases hfault : faults.put s.world.storedKeys.length with
    | none => simp [hpath, hfault] at h
    | some fault =>
      obtain ⟨putStep, raised⟩ := fault
      simp only [hpath, hfault] at h
      cases h
      refine ⟨Or.inr (by simp), rfl, rfl, ?_⟩
      cases hvisible : putStep.afterRename with
      | true => exact Or.inr ⟨path, ⟨hpath, putStep, e, hfault, hvisible⟩, rfl⟩
      | false =>
        refine Or.inl ⟨rfl, ?_⟩
        intro other ⟨_, step', e', hstep', hafter⟩
        rw [hfault, Option.some.injEq, Prod.mk.injEq] at hstep'
        rw [← hstep'.1, hvisible] at hafter
        cases hafter

/-- The loop after the puts of `done`: it writes all files or stops at the first put
that raises. -/
theorem putArtifacts_spec {all done rest : List PreparedArtifact} {objects : Objects}
    {s : Session Database StorageWorld} (hall : all = done ++ rest)
    (hdone : PutsReturn env faults deviceId done)
    (hworld : s.world = ⟨withArtifacts env deviceId objects done,
      done.map (artifactKey env deviceId)⟩) :
    match putArtifacts env faults deviceId rest s with
    | .ok records t => PutsReturn env faults deviceId all ∧
        records = rest.map (fun item =>
          storedRecord env deviceId item item.artifact.content.length) ∧
        t = { s with world := ⟨withArtifacts env deviceId objects all,
          all.map (artifactKey env deviceId)⟩ }
    | .error _ t => t.db = s.db ∧ PutRaised env faults deviceId objects all t.world := by
  induction rest generalizing done s with
  | nil =>
    rw [List.append_nil] at hall
    subst hall
    refine ⟨hdone, rfl, ?_⟩
    rw [← hworld]
  | cons item rest ih =>
    have hlength : s.world.storedKeys.length = done.length := by
      rw [hworld, List.length_map]
    unfold putArtifacts
    simp only [bind, EStateM.bind]
    cases hput : putArtifact env faults deviceId item s with
    | error e u =>
      obtain ⟨hraised, hdb, hkeys, hobjects⟩ := putArtifact_error hput
      rw [hlength] at hraised hobjects
      refine ⟨hdb, done, item, rest, hall, hdone, ?_, by rw [hkeys, hworld], ?_⟩
      · intro hreturn
        obtain ⟨_, hpath, hfault⟩ := putsReturn_snoc.mp hreturn
        rcases hraised with hnone | hsome
        · exact hpath hnone
        · exact hsome hfault
      · rw [hworld] at hobjects
        exact hobjects
    | ok record u =>
      obtain ⟨hpath, hfault, hrecord, hu⟩ := putArtifact_ok hput
      rw [hlength] at hfault
      have hnext : u.world = ⟨withArtifacts env deviceId objects (done ++ [item]),
          (done ++ [item]).map (artifactKey env deviceId)⟩ := by
        rw [hu, withArtifacts_snoc, List.map_append, hworld]
        rfl
      have hrest := ih (by rw [hall, List.append_assoc]; rfl)
        (putsReturn_snoc.mpr ⟨hdone, hpath, hfault⟩) hnext
      have hudb : u.db = s.db := by rw [hu]
      have hcalls : u.calls = s.calls := by rw [hu]
      dsimp only
      cases hothers : putArtifacts env faults deviceId rest u with
      | error e t =>
        rw [hothers] at hrest
        exact ⟨hrest.1.trans hudb, hrest.2⟩
      | ok others t =>
        rw [hothers] at hrest
        obtain ⟨hreturn, hrecords, ht⟩ := hrest
        refine ⟨hreturn, ?_, ?_⟩
        · rw [List.map_cons, hrecord, hrecords]
        · show t = _
          rw [ht, hudb, hcalls]

/-- Deletions that all return remove exactly the stored files. -/
theorem rollbackStorage_eq {fails : ℕ → Bool} (hfails : ∀ n, fails n = false)
    (keys : List String) (objects : Objects) (path : Path) :
    rollbackStorage fails keys objects path =
      if some path ∈ keys.map localPath then none else objects path := by
  have hfold : rollbackStorage fails keys objects = keys.foldr delete objects := by
    induction keys with
    | nil => rfl
    | cons key rest ih =>
      unfold rollbackStorage
      rw [hfails, ih]
      rfl
  rw [hfold, foldr_delete]

/-- After a put that raised, the rollback leaves a new file exactly for an orphan. -/
theorem rollback_orphan_iff {fails : ℕ → Bool} (hfails : ∀ n, fails n = false)
    {objects : Objects} {items : List PreparedArtifact} {world : StorageWorld}
    (hraised : PutRaised env faults deviceId objects items world) :
    (∀ path content, rollbackStorage fails world.storedKeys world.objects path = some content →
        objects path = some content) ↔ ¬ Orphaned env faults deviceId objects items := by
  obtain ⟨before, item, after, hitems, hbefore, hfirst, hkeys, hobjects⟩ := hraised
  have hstored : ∀ path, some path ∈ world.storedKeys.map localPath ↔
      ∃ other ∈ before, localPath (artifactKey env deviceId other) = some path := by
    intro path
    rw [hkeys, List.map_map]
    simp
  constructor
  · intro hnone ⟨before', item', after', path, hitems', hbefore', hvisible, hfresh, hnew⟩
    have hfirst' : ¬ PutsReturn env faults deviceId (before' ++ [item']) := by
      intro hreturn
      obtain ⟨_, step, e, hfault, _⟩ := hvisible
      rw [(putsReturn_snoc.mp hreturn).2.2] at hfault
      cases hfault
    obtain ⟨hsame, hitem⟩ := firstRaised_unique (hitems.symm.trans hitems') hbefore hfirst
      hbefore' hfirst'
    subst hsame hitem
    apply hnew
    apply hnone
    rw [rollbackStorage_eq hfails, if_neg]
    · rcases hobjects with ⟨_, hinvisible⟩ | ⟨path', hvisible', hworld⟩
      · exact absurd hvisible (hinvisible path)
      · have hpath := hvisible.1.symm.trans hvisible'.1
        rw [Option.some.injEq] at hpath
        rw [hworld, hpath]
        exact withObject_same ..
    · rw [hstored]
      intro ⟨other, hother, hpath⟩
      exact hfresh other hother hpath
  · intro hnot path content hleft
    rw [rollbackStorage_eq hfails] at hleft
    by_cases hdeleted : some path ∈ world.storedKeys.map localPath
    · rw [if_pos hdeleted] at hleft
      cases hleft
    · rw [if_neg hdeleted] at hleft
      rw [hstored] at hdeleted
      have hfresh : ∀ other ∈ before, localPath (artifactKey env deviceId other) ≠ some path :=
        fun other hother hpath => hdeleted ⟨other, hother, hpath⟩
      rcases hobjects with ⟨hworld, _⟩ | ⟨path', hvisible, hworld⟩
      · rw [hworld, withArtifacts_other hfresh] at hleft
        exact hleft
      · rw [hworld] at hleft
        by_cases hpath : path = path'
        · subst hpath
          rw [withObject_same, Option.some.injEq] at hleft
          by_contra hne
          rw [← hleft] at hne
          exact hnot ⟨before, item, after, path, hitems, hbefore, hvisible, hfresh, hne⟩
        · rw [withObject_other hpath, withArtifacts_other hfresh] at hleft
          exact hleft

theorem not_orphaned {objects : Objects} {items : List PreparedArtifact}
    (h : PutsReturn env faults deviceId items) : ¬ Orphaned env faults deviceId objects items := by
  intro ⟨before, item, after, path, hitems, _, ⟨_, step, e, hfault, _⟩, _⟩
  rw [hitems, List.append_cons] at h
  rw [(putsReturn_snoc.mp (putsReturn_append h)).2.2] at hfault
  cases hfault

/-- When all puts have returned, the rollback knows every file. -/
theorem rollback_withArtifacts {fails : ℕ → Bool} (hfails : ∀ n, fails n = false)
    {objects : Objects} {items : List PreparedArtifact} {path : Path} {content : List UInt8}
    (h : rollbackStorage fails (items.map (artifactKey env deviceId))
      (withArtifacts env deviceId objects items) path = some content) :
    objects path = some content := by
  rw [rollbackStorage_eq hfails, List.map_map] at h
  split at h
  · cases h
  · rename_i hfresh
    rw [withArtifacts_other] at h
    · exact h
    · intro item hitem hpath
      exact hfresh (List.mem_map.mpr ⟨item, hitem, hpath⟩)

end Puts

section Rows

variable {scheduler : Scheduler} {db db' : Database} {runId : ℕ}

/-- The run and its target are there. -/
def HasRun (db : Database) (runId : ℕ) : Prop :=
  ∃ run target, db.runs.get? runId = some run ∧ db.targets.get? run.target = some target

theorem hasStatus_of_update {f : BackupRun → BackupRun} {run : BackupRun} {status : RunStatus}
    (hrun : db.runs.get? runId = some run) (hstatus : (f run).status = status)
    (h : ∃ hf, db'.runs = db.runs.update runId f hf) : HasStatus db' runId status := by
  obtain ⟨hf, h⟩ := h
  refine ⟨f run, ?_, hstatus⟩
  rw [h, Table.get?_update, if_pos rfl, hrun]
  rfl

theorem markFailed_writes {failure : RunFailure} {finishedAt : Instant}
    (h : markFailed scheduler db runId failure finishedAt = some db') :
    HasStatus db' runId failure.status ∧ db'.revisions = db.revisions := by
  unfold markFailed at h
  obtain ⟨run, hrun, h⟩ := Option.bind_eq_some_iff.mp h
  obtain ⟨target, _, h⟩ := Option.bind_eq_some_iff.mp h
  rw [Option.some.injEq] at h
  subst h
  exact ⟨hasStatus_of_update hrun rfl ⟨by exact fun _ => rfl, rfl⟩, rfl⟩

theorem exists_markFailed (scheduler : Scheduler) (h : HasRun db runId) (failure : RunFailure)
    (finishedAt : Instant) :
    ∃ db', markFailed scheduler db runId failure finishedAt = some db' := by
  obtain ⟨run, target, hrun, htarget⟩ := h
  unfold markFailed
  exact ⟨_, Option.bind_eq_some_iff.mpr ⟨run, hrun,
    Option.bind_eq_some_iff.mpr ⟨target, htarget, rfl⟩⟩⟩

theorem hasRun_of_markFailed {failure : RunFailure} {finishedAt : Instant}
    (h : markFailed scheduler db runId failure finishedAt = some db') : HasRun db runId := by
  unfold markFailed at h
  obtain ⟨run, hrun, h⟩ := Option.bind_eq_some_iff.mp h
  obtain ⟨target, htarget, _⟩ := Option.bind_eq_some_iff.mp h
  exact ⟨run, target, hrun, htarget⟩

theorem commitUnchanged_status {latest : Option ConfigRevision} {rawChanged : Bool}
    {finishedAt : Instant}
    (h : commitUnchanged scheduler db runId latest rawChanged finishedAt = some db') :
    HasStatus db' runId .successUnchanged := by
  unfold commitUnchanged at h
  obtain ⟨run, hrun, h⟩ := Option.bind_eq_some_iff.mp h
  obtain ⟨target, _, h⟩ := Option.bind_eq_some_iff.mp h
  rw [Option.some.injEq] at h
  subst h
  exact hasStatus_of_update hrun rfl ⟨by exact fun _ => rfl, rfl⟩

theorem exists_commitUnchanged (scheduler : Scheduler) (h : HasRun db runId)
    (latest : Option ConfigRevision) (rawChanged : Bool) (finishedAt : Instant) :
    ∃ db', commitUnchanged scheduler db runId latest rawChanged finishedAt = some db' := by
  obtain ⟨run, target, hrun, htarget⟩ := h
  unfold commitUnchanged
  exact ⟨_, Option.bind_eq_some_iff.mpr ⟨run, hrun,
    Option.bind_eq_some_iff.mpr ⟨target, htarget, rfl⟩⟩⟩

theorem exists_commitRevision (scheduler : Scheduler) (h : HasRun db runId)
    (previous : Option ConfigRevision) (commit : RevisionCommit) :
    ∃ db', commitRevision scheduler db runId previous commit = some db' := by
  obtain ⟨run, target, hrun, htarget⟩ := h
  unfold commitRevision
  exact ⟨_, Option.bind_eq_some_iff.mpr ⟨run, hrun,
    Option.bind_eq_some_iff.mpr ⟨target, htarget, rfl⟩⟩⟩

theorem commitRevision_status {previous : Option ConfigRevision} {commit : RevisionCommit}
    (h : commitRevision scheduler db runId previous commit = some db') :
    HasStatus db' runId
      (if commit.contentChanged then .successChanged else .successUnchanged) := by
  unfold commitRevision at h
  obtain ⟨run, hrun, h⟩ := Option.bind_eq_some_iff.mp h
  obtain ⟨target, _, h⟩ := Option.bind_eq_some_iff.mp h
  rw [Option.some.injEq] at h
  subst h
  exact hasStatus_of_update hrun rfl ⟨by exact fun _ => rfl, rfl⟩

/-- Marking a run keeps it with its target, and keeps all revisions. -/
theorem markRunning_keeps {startedAt : Instant} (h : markRunning db runId startedAt = some db') :
    (HasRun db' runId ↔ HasRun db runId) ∧ db'.revisions = db.revisions ∧
      db'.artifacts = db.artifacts := by
  unfold markRunning at h
  obtain ⟨run, hrun, h⟩ := Option.bind_eq_some_iff.mp h
  split at h
  · cases h
  · rw [Option.some.injEq] at h
    subst h
    refine ⟨?_, rfl, rfl⟩
    unfold HasRun saveRun
    dsimp only
    rw [Table.get?_update, if_pos rfl, hrun]
    simp

theorem getExecutionContext_hasRun {env : PipelineEnvironment} {context : ExecutionContext}
    (h : getExecutionContext env db runId = .ok context) : HasRun db runId := by
  unfold getExecutionContext at h
  cases hrun : db.runs.get? runId with
  | none => simp [hrun] at h
  | some run =>
    cases htarget : db.targets.get? run.target with
    | none => simp [hrun, htarget] at h
    | some target => exact ⟨run, target, hrun, htarget⟩

end Rows

section Body

variable {env : PipelineEnvironment} {faults : ExecutionFaults} {scheduler : Scheduler}
  {sha256Hex : List UInt8 → String} {runId : ℕ} {db running : Database} {objects : Objects}
  {context : ExecutionContext} {collected : Collected} {latest : Option RevisionSnapshot}

/-- The body reads its context, marks the run, collects the files and reads the
latest revision, and none of these steps raises. -/
structure Reached (env : PipelineEnvironment) (faults : ExecutionFaults)
    (sha256Hex : List UInt8 → String) (runId : ℕ) (db : Database) (context : ExecutionContext)
    (running : Database) (collected : Collected) (latest : Option RevisionSnapshot) : Prop where
  hasContext : getExecutionContext env db runId = .ok context
  marked : markRunning db runId env.startedAt = some running
  collects : collectPrepared sha256Hex env context.profile = .ok collected
  hasLatest : getLatestRevision running
    (env.snapshotQuery.first (running.targetRevisions context.targetId)) = some latest
  noFault : ∀ n < 3, faults.repository n = false

theorem Reached.unique {running' : Database} {context' : ExecutionContext}
    {collected' : Collected} {latest' : Option RevisionSnapshot}
    (h : Reached env faults sha256Hex runId db context running collected latest)
    (h' : Reached env faults sha256Hex runId db context' running' collected' latest') :
    context = context' ∧ running = running' ∧ collected = collected' := by
  have hcontext := h.hasContext.symm.trans h'.hasContext
  rw [Except.ok.injEq] at hcontext
  subst hcontext
  have hrunning := h.marked.symm.trans h'.marked
  have hcollected := h.collects.symm.trans h'.collects
  rw [Option.some.injEq] at hrunning
  rw [Except.ok.injEq] at hcollected
  exact ⟨rfl, hrunning, hcollected⟩

theorem tryBlock_reached
    (h : Reached env faults sha256Hex runId db context running collected latest) :
    tryBlock env faults scheduler sha256Hex runId ⟨db, ⟨objects, []⟩, 0⟩ =
      finishBackup env faults scheduler runId context collected latest
        ⟨running, ⟨objects, []⟩, 3⟩ := by
  unfold tryBlock
  rw [bind_of_ok (transact_eq_ok context db (h.noFault 0 (by omega)) ?_),
    bind_of_ok (transact_eq_ok () running (h.noFault 1 (by omega)) ?_),
    h.collects, bind_of_ok (ofExcept_ok _ _),
    bind_of_ok (transact_eq_ok latest running (h.noFault 2 (by omega)) ?_)]
  · simp only [h.hasLatest]
    rfl
  · simp only [h.marked]
    rfl
  · simp only [h.hasContext]
    rfl

/-- A body that stops earlier has written no file and no revision. -/
theorem tryBlock_unreached (scheduler : Scheduler) (objects : Objects)
    (h : ∀ context running collected latest,
      ¬ Reached env faults sha256Hex runId db context running collected latest) :
    ∃ e t, tryBlock env faults scheduler sha256Hex runId ⟨db, ⟨objects, []⟩, 0⟩ = .error e t ∧
      t.world = ⟨objects, []⟩ ∧ (t.db = db ∨ markRunning db runId env.startedAt = some t.db) := by
  unfold tryBlock
  rcases transact_cases faults.repository .unexpected (fun db => do
      let context ← getExecutionContext env db runId
      pure (context, db)) (⟨db, ⟨objects, []⟩, 0⟩ : Session Database StorageWorld) with
    ⟨e, hraised⟩ | ⟨hfault, context, _, hread, hreturned⟩
  · exact ⟨e, _, bind_of_error hraised, rfl, Or.inl rfl⟩
  obtain ⟨_, hcontext, hpure⟩ := bind_eq_ok.mp hread
  cases hpure
  rw [bind_of_ok hreturned]
  rcases transact_cases faults.repository .unexpected (fun db => do
      let running ← orRaise (markRunning db runId env.startedAt)
      pure ((), running)) (⟨db, ⟨objects, []⟩, 1⟩ : Session Database StorageWorld) with
    ⟨e, hraised⟩ | ⟨hfault', _, running, hmark, hreturned'⟩
  · exact ⟨e, _, bind_of_error hraised, rfl, Or.inl rfl⟩
  obtain ⟨_, hrunning, hpure⟩ := bind_eq_ok.mp hmark
  cases hpure
  rw [bind_of_ok hreturned']
  have hmarked := orRaise_eq_ok.mp hrunning
  cases hcollects : collectPrepared sha256Hex env context.profile with
  | error e => exact ⟨e, ⟨running, ⟨objects, []⟩, 2⟩, bind_of_error (ofExcept_error _ _), rfl,
      Or.inr hmarked⟩
  | ok collected =>
    rw [bind_of_ok (ofExcept_ok _ _)]
    rcases transact_cases faults.repository .unexpected (fun db => do
        let latest ← orRaise
          (getLatestRevision db (env.snapshotQuery.first (db.targetRevisions context.targetId)))
        pure (latest, db)) (⟨running, ⟨objects, []⟩, 2⟩ : Session Database StorageWorld) with
      ⟨e, hraised⟩ | ⟨hfault'', latest, _, hquery, _⟩
    · exact ⟨e, _, bind_of_error hraised, rfl, Or.inr hmarked⟩
    · obtain ⟨_, hlatest, hpure⟩ := bind_eq_ok.mp hquery
      cases hpure
      refine absurd ⟨hcontext, hmarked, hcollects, orRaise_eq_ok.mp hlatest, ?_⟩
        (h context running collected latest)
      intro n hn
      interval_cases n
      · exact hfault
      · exact hfault'
      · exact hfault''

/-- The condition of the unchanged shortcut. -/
theorem shortcut_iff
    (h : Reached env faults sha256Hex runId db context running collected latest) :
    (!(latest.all (fun s => s.normalizedHash != collected.primary.normalizedHash)) &&
        context.storeMode == .changedOnly) = true ↔
      ¬ Stores env running context collected.primary.normalizedHash := by
  have hchanged := getLatestRevision_changed h.hasLatest collected.primary.normalizedHash
  unfold Stores
  rw [← hchanged]
  cases hmode : context.storeMode <;> simp

theorem Reached.hasRun
    (h : Reached env faults sha256Hex runId db context running collected latest) :
    HasRun running runId :=
  (markRunning_keeps h.marked).1.mpr (getExecutionContext_hasRun h.hasContext)

/-- The body returns: the last transaction does not raise, and if it stores a
revision then all puts return and the keys are new. -/
def Committed (env : PipelineEnvironment) (faults : ExecutionFaults)
    (sha256Hex : List UInt8 → String) (runId : ℕ) (db : Database) : Prop :=
  ∃ context running collected latest,
    Reached env faults sha256Hex runId db context running collected latest ∧
    faults.repository 3 = false ∧
    (Stores env running context collected.primary.normalizedHash →
      PutsReturn env faults context.deviceId collected.prepared ∧
      storageKeysFree running (collected.prepared.map (artifactKey env context.deviceId)))

/-- The body stores a revision, and a put leaves an orphan. -/
def Orphans (env : PipelineEnvironment) (faults : ExecutionFaults)
    (sha256Hex : List UInt8 → String) (runId : ℕ) (db : Database) (objects : Objects) : Prop :=
  ∃ context running collected latest,
    Reached env faults sha256Hex runId db context running collected latest ∧
    Stores env running context collected.primary.normalizedHash ∧
    Orphaned env faults context.deviceId objects collected.prepared

/-- The new rows and files of a body that returned. -/
structure StoredBackup (env : PipelineEnvironment) (scheduler : Scheduler) (runId : ℕ)
    (context : ExecutionContext) (running : Database) (collected : Collected) (objects : Objects)
    (t : Session Database StorageWorld) : Prop where
  commit : ∃ contentChanged rawChanged, commitRevision scheduler running runId
    (env.commitQuery.first (running.targetRevisions context.targetId))
    (revisionCommit env context collected contentChanged rawChanged (collected.prepared.map
      (fun item => storedRecord env context.deviceId item item.artifact.content.length))) =
    some t.db
  keys : storageKeysFree running (collected.prepared.map (artifactKey env context.deviceId))
  files : t.world.objects = withArtifacts env context.deviceId objects collected.prepared
  paths : ∀ item ∈ collected.prepared, localPath (artifactKey env context.deviceId item) ≠ none

/-- The end of the body without a new revision. -/
theorem commitShortcut_cases (env : PipelineEnvironment) (faults : ExecutionFaults)
    (scheduler : Scheduler) (context : ExecutionContext) (objects : Objects) (rawChanged : Bool)
    (hrun : HasRun running runId) :
    (faults.repository 3 = false ∧ ∃ result t,
        commitShortcut env faults scheduler runId context rawChanged ⟨running, ⟨objects, []⟩, 3⟩ =
          .ok result t ∧ result.status = .successUnchanged ∧
        ∃ revision, commitUnchanged scheduler running runId revision rawChanged env.finishedAt =
          some t.db) ∨
      (faults.repository 3 = true ∧ ∃ e t,
        commitShortcut env faults scheduler runId context rawChanged ⟨running, ⟨objects, []⟩, 3⟩ =
          .error e t ∧ t.db = running ∧ t.world = ⟨objects, []⟩) := by
  unfold commitShortcut
  cases hfault : faults.repository 3 with
  | true =>
    refine Or.inr ⟨rfl, .unexpected, ⟨running, ⟨objects, []⟩, 4⟩, ?_, rfl, rfl⟩
    unfold transact
    rw [if_pos hfault]
  | false =>
    obtain ⟨db', hcommit⟩ := exists_commitUnchanged scheduler hrun
      (env.commitQuery.first (running.targetRevisions context.targetId)) rawChanged env.finishedAt
    refine Or.inl ⟨rfl, _, _, transact_eq_ok ?_ db' hfault ?_, ?_, ?_⟩
    · exact ⟨runId, .successUnchanged, false, rawChanged,
        (env.commitQuery.first (running.targetRevisions context.targetId)).map (fun r => r.pk), ""⟩
    · simp only [hcommit]
      rfl
    · rfl
    · exact ⟨_, hcommit⟩

theorem commitRecords_eq_ok {contentChanged rawChanged : Bool}
    {records : List StoredArtifactRecord} {result : BackupResult} {db' : Database}
    (h : commitRecords env scheduler runId context collected contentChanged rawChanged records
      running = .ok (result, db')) :
    storageKeysFree running (records.map (fun r => r.storageKey)) ∧
      (result.status = .successChanged ∨ result.status = .successUnchanged) ∧
      commitRevision scheduler running runId
        (env.commitQuery.first (running.targetRevisions context.targetId))
        (revisionCommit env context collected contentChanged rawChanged records) = some db' := by
  obtain ⟨committed, hcommitted, hpure⟩ := bind_eq_ok.mp h
  cases hpure
  unfold commitStored at hcommitted
  split at hcommitted
  · rename_i hfree
    refine ⟨hfree, ?_, orRaise_eq_ok.mp hcommitted⟩
    cases contentChanged
    · exact Or.inr rfl
    · exact Or.inl rfl
  · cases hcommitted

theorem exists_commitRecords (env : PipelineEnvironment) (scheduler : Scheduler)
    (context : ExecutionContext) (collected : Collected) {contentChanged rawChanged : Bool}
    {records : List StoredArtifactRecord} (hrun : HasRun running runId)
    (hfree : storageKeysFree running (records.map (fun r => r.storageKey))) :
    ∃ result db', commitRecords env scheduler runId context collected contentChanged rawChanged
      records running = .ok (result, db') := by
  obtain ⟨db', hcommit⟩ := exists_commitRevision scheduler hrun
    (env.commitQuery.first (running.targetRevisions context.targetId))
    (revisionCommit env context collected contentChanged rawChanged records)
  have hstored : commitStored scheduler running runId
      (env.commitQuery.first (running.targetRevisions context.targetId))
      (revisionCommit env context collected contentChanged rawChanged records) = .ok db' := by
    unfold commitStored
    exact (if_pos hfree).trans (orRaise_eq_ok.mpr hcommit)
  exact ⟨_, db', bind_eq_ok.mpr ⟨db', hstored, rfl⟩⟩

/-- The end of the body with a new revision. -/
theorem storeCollected_cases (env : PipelineEnvironment) (faults : ExecutionFaults)
    (scheduler : Scheduler) (context : ExecutionContext) (collected : Collected)
    (objects : Objects) (contentChanged rawChanged : Bool)
    (hrun : HasRun running runId) :
    (faults.repository 3 = false ∧ PutsReturn env faults context.deviceId collected.prepared ∧
      storageKeysFree running (collected.prepared.map (artifactKey env context.deviceId)) ∧
      ∃ result t, storeCollected env faults scheduler runId context collected contentChanged
          rawChanged ⟨running, ⟨objects, []⟩, 3⟩ = .ok result t ∧
        (result.status = .successChanged ∨ result.status = .successUnchanged) ∧
        StoredBackup env scheduler runId context running collected objects t) ∨
    (∃ e t, storeCollected env faults scheduler runId context collected contentChanged
          rawChanged ⟨running, ⟨objects, []⟩, 3⟩ = .error e t ∧ t.db = running ∧
        (PutRaised env faults context.deviceId objects collected.prepared t.world ∨
          (PutsReturn env faults context.deviceId collected.prepared ∧
            (faults.repository 3 = true ∨ ¬ storageKeysFree running
              (collected.prepared.map (artifactKey env context.deviceId))) ∧
            t.world = ⟨withArtifacts env context.deviceId objects collected.prepared,
              collected.prepared.map (artifactKey env context.deviceId)⟩))) := by
  have hloop := @putArtifacts_spec env faults context.deviceId collected.prepared []
    collected.prepared objects ⟨running, ⟨objects, []⟩, 3⟩ rfl
    ⟨fun item hitem => absurd hitem List.not_mem_nil, fun n hn => absurd hn (Nat.not_lt_zero n)⟩
    rfl
  unfold storeCollected
  cases hputs : putArtifacts env faults context.deviceId collected.prepared
      ⟨running, ⟨objects, []⟩, 3⟩ with
  | error e u =>
    rw [hputs] at hloop
    exact Or.inr ⟨e, u, bind_of_error hputs, hloop.1, Or.inl hloop.2⟩
  | ok records u =>
    rw [hputs] at hloop
    obtain ⟨hreturn, hrecords, hu⟩ := hloop
    subst hu
    rw [bind_of_ok hputs]
    have hkeys : records.map (fun r => r.storageKey) =
        collected.prepared.map (artifactKey env context.deviceId) := by
      rw [hrecords, List.map_map]
      rfl
    rcases transact_cases faults.repository .unexpected (commitRecords env scheduler runId context
        collected contentChanged rawChanged records)
        (⟨running, _, 3⟩ : Session Database StorageWorld) with
      ⟨e, hraised⟩ | ⟨hfault, result, db', hstored, hreturned⟩
    · refine Or.inr ⟨e, _, hraised, rfl, Or.inr ⟨hreturn, ?_, rfl⟩⟩
      by_contra hnot
      rw [not_or, not_not, Bool.not_eq_true, ← hkeys] at hnot
      obtain ⟨result, db', hcommit⟩ := exists_commitRecords env scheduler context collected
        hrun hnot.2
      rw [transact_eq_ok _ _ hnot.1 hcommit] at hraised
      cases hraised
    · obtain ⟨hfree, hstatus, hcommit⟩ := commitRecords_eq_ok hstored
      rw [hkeys] at hfree
      rw [hrecords] at hcommit
      exact Or.inl ⟨hfault, hreturn, hfree, result, _, hreturned, hstatus,
        ⟨⟨_, _, hcommit⟩, hfree, rfl, hreturn.1⟩⟩

theorem Reached.committed_iff
    (h : Reached env faults sha256Hex runId db context running collected latest) :
    Committed env faults sha256Hex runId db ↔ faults.repository 3 = false ∧
      (Stores env running context collected.primary.normalizedHash →
        PutsReturn env faults context.deviceId collected.prepared ∧
        storageKeysFree running (collected.prepared.map (artifactKey env context.deviceId))) := by
  constructor
  · intro ⟨context', running', collected', latest', h', hcommitted⟩
    obtain ⟨hcontext, hrunning, hcollected⟩ := h.unique h'
    subst hcontext hrunning hcollected
    exact hcommitted
  · exact fun hcommitted => ⟨context, running, collected, latest, h, hcommitted⟩

theorem Reached.orphans_iff
    (h : Reached env faults sha256Hex runId db context running collected latest) :
    Orphans env faults sha256Hex runId db objects ↔
      Stores env running context collected.primary.normalizedHash ∧
        Orphaned env faults context.deviceId objects collected.prepared := by
  constructor
  · intro ⟨context', running', collected', latest', h', horphans⟩
    obtain ⟨hcontext, hrunning, hcollected⟩ := h.unique h'
    subst hcontext hrunning hcollected
    exact horphans
  · exact fun horphans => ⟨context, running, collected, latest, h, horphans⟩

/-- The body returned, with or without a new revision. -/
def BodyReturned (env : PipelineEnvironment) (faults : ExecutionFaults) (scheduler : Scheduler)
    (sha256Hex : List UInt8 → String) (runId : ℕ) (db : Database) (objects : Objects)
    (t : Session Database StorageWorld) : Prop :=
  ∃ context running collected latest,
    Reached env faults sha256Hex runId db context running collected latest ∧
    ((∃ revision rawChanged, commitUnchanged scheduler running runId revision rawChanged
        env.finishedAt = some t.db) ∨
      StoredBackup env scheduler runId context running collected objects t)

/-- The body raised: its writes end with the mark of the run, and the rollback leaves
a new file exactly when there is an orphan. -/
def BodyRaised (env : PipelineEnvironment) (faults : ExecutionFaults)
    (sha256Hex : List UInt8 → String) (runId : ℕ) (db : Database) (objects : Objects)
    (t : Session Database StorageWorld) : Prop :=
  (t.db = db ∨ markRunning db runId env.startedAt = some t.db) ∧
    ((∀ n, faults.delete n = false) →
      ((∀ path content, rollbackStorage faults.delete t.world.storedKeys t.world.objects path =
          some content → objects path = some content) ↔
        ¬ Orphans env faults sha256Hex runId db objects))

theorem tryBlock_spec (env : PipelineEnvironment) (faults : ExecutionFaults)
    (scheduler : Scheduler) (sha256Hex : List UInt8 → String) (runId : ℕ) (db : Database)
    (objects : Objects) :
    (Committed env faults sha256Hex runId db ∧ ∃ result t,
      tryBlock env faults scheduler sha256Hex runId ⟨db, ⟨objects, []⟩, 0⟩ = .ok result t ∧
      (result.status = .successChanged ∨ result.status = .successUnchanged) ∧
      BodyReturned env faults scheduler sha256Hex runId db objects t) ∨
    (¬ Committed env faults sha256Hex runId db ∧ ∃ e t,
      tryBlock env faults scheduler sha256Hex runId ⟨db, ⟨objects, []⟩, 0⟩ = .error e t ∧
      BodyRaised env faults sha256Hex runId db objects t) := by
  by_cases hreached : ∃ context running collected latest,
      Reached env faults sha256Hex runId db context running collected latest
  · obtain ⟨context, running, collected, latest, hreached⟩ := hreached
    rw [tryBlock_reached hreached]
    unfold finishBackup
    by_cases hstores : Stores env running context collected.primary.normalizedHash
    · rw [if_neg (fun h => (shortcut_iff hreached).mp h hstores)]
      rcases storeCollected_cases env faults scheduler context collected objects _ _
          hreached.hasRun with
        ⟨hfault, hreturn, hfree, result, t, hok, hstatus, hstored⟩ | ⟨e, t, herror, hdb, hworld⟩
      · exact Or.inl ⟨hreached.committed_iff.mpr ⟨hfault, fun _ => ⟨hreturn, hfree⟩⟩, result, t,
          hok, hstatus, context, running, collected, latest, hreached, Or.inr hstored⟩
      · have hmarked : markRunning db runId env.startedAt = some t.db := by
          rw [hdb]
          exact hreached.marked
        refine Or.inr ⟨?_, e, t, herror, Or.inr hmarked, ?_⟩
        · intro hcommitted
          obtain ⟨hfault, hstored⟩ := hreached.committed_iff.mp hcommitted
          obtain ⟨hreturn, hfree⟩ := hstored hstores
          rcases hworld with hraised | ⟨_, hcause, _⟩
          · obtain ⟨before, item, after, hitems, _, hfirst, _⟩ := hraised
            rw [hitems, List.append_cons] at hreturn
            exact hfirst (putsReturn_append hreturn)
          · rcases hcause with hcause | hcause
            · rw [hfault] at hcause
              cases hcause
            · exact hcause hfree
        · intro hdeletes
          rw [hreached.orphans_iff, and_iff_right hstores]
          rcases hworld with hraised | ⟨hreturn, _, hworld⟩
          · exact rollback_orphan_iff hdeletes hraised
          · rw [hworld]
            exact iff_of_true (fun _ _ => rollback_withArtifacts hdeletes) (not_orphaned hreturn)
    · rw [if_pos ((shortcut_iff hreached).mpr hstores)]
      rcases commitShortcut_cases env faults scheduler context objects _ hreached.hasRun with
        ⟨hfault, result, t, hok, hstatus, revision, hcommit⟩ | ⟨hfault, e, t, herror, hdb, hworld⟩
      · exact Or.inl ⟨hreached.committed_iff.mpr ⟨hfault, fun h => absurd h hstores⟩, result, t,
          hok, Or.inr hstatus, context, running, collected, latest, hreached,
          Or.inl ⟨revision, _, hcommit⟩⟩
      · have hmarked : markRunning db runId env.startedAt = some t.db := by
          rw [hdb]
          exact hreached.marked
        refine Or.inr ⟨?_, e, t, herror, Or.inr hmarked, ?_⟩
        · intro hcommitted
          rw [(hreached.committed_iff.mp hcommitted).1] at hfault
          cases hfault
        · intro _
          rw [hworld, hreached.orphans_iff]
          exact iff_of_true (fun _ _ h => h) (fun h => hstores h.1)
  · obtain ⟨e, t, herror, hworld, hdb⟩ := tryBlock_unreached scheduler objects
      (fun context running collected latest h => hreached ⟨context, running, collected, latest, h⟩)
    refine Or.inr ⟨?_, e, t, herror, hdb, ?_⟩
    · intro ⟨context, running, collected, latest, h, _⟩
      exact hreached ⟨context, running, collected, latest, h⟩
    · intro _
      rw [hworld]
      refine iff_of_true (fun _ _ h => h) ?_
      intro ⟨context, running, collected, latest, h, _⟩
      exact hreached ⟨context, running, collected, latest, h⟩

end Body

section Readable

variable {env : PipelineEnvironment} {sha256Hex : List UInt8 → String}

/-- Every artifact of the revision can be read with its size and hash, the storage
keys differ, and one artifact is the primary one. -/
structure RevisionReadable (sha256Hex : List UInt8 → String) (db : Database) (objects : Objects)
    (revisionId : ℕ) : Prop where
  readable : ∀ a ∈ db.artifactsOf revisionId, ∃ content,
    getObject objects a.storageKey = some content ∧ content.length = a.size ∧
      sha256Hex content = a.rawHash
  distinct : ((db.artifactsOf revisionId).map (fun a => a.storageKey)).Nodup
  primary : ((db.artifactsOf revisionId).filter (fun a => a.isPrimary)).length = 1

/-- The record that an artifact row was created from. -/
def artifactRecord (a : ConfigArtifact) : StoredArtifactRecord where
  artifactType := a.artifactType
  format := a.format
  storageKey := a.storageKey
  size := a.size
  rawHash := a.rawHash
  normalizedHash := a.normalizedHash
  isPrimary := a.isPrimary

theorem createArtifacts_rows (artifacts : Table ConfigArtifact ConfigArtifact.pk) (revisionId : ℕ)
    (records : List StoredArtifactRecord) :
    ∃ news, (createArtifacts artifacts revisionId records).rows = artifacts.rows ++ news ∧
      news.map artifactRecord = records ∧ ∀ a ∈ news, a.revision = revisionId := by
  induction records generalizing artifacts with
  | nil => exact ⟨[], (List.append_nil _).symm, rfl, fun a ha => absurd ha List.not_mem_nil⟩
  | cons record rest ih =>
    obtain ⟨news, hrows, hrecords, hrevision⟩ :=
      ih (artifacts.insert (newArtifact revisionId record) (newArtifact_pk _ _))
    refine ⟨newArtifact revisionId record artifacts.next :: news, ?_, ?_, ?_⟩
    · rw [List.append_cons]
      exact hrows
    · rw [List.map_cons, hrecords]
      rfl
    · intro a ha
      rcases List.mem_cons.mp ha with heq | ha
      · rw [heq]
        rfl
      · exact hrevision a ha

theorem prepareArtifact_ok {driver : Driver} {artifact : CollectedArtifact}
    {item : PreparedArtifact} (h : prepareArtifact sha256Hex driver artifact = .ok item) :
    item.artifact = artifact ∧ item.rawHash = sha256Hex artifact.content ∧
      item.isPrimary = artifact.isPrimary := by
  obtain ⟨validation, _, hnormalize⟩ := bind_eq_ok.mp h
  split at hnormalize
  · cases hnormalize
  · split at hnormalize
    · cases hnormalize
    · cases hnormalize
    · cases hnormalize
    · split at hnormalize
      · cases hnormalize
      · cases hnormalize
        exact ⟨rfl, rfl, rfl⟩

theorem prepareEach_ok {driver : Driver} {artifacts : List CollectedArtifact}
    {prepared : List PreparedArtifact}
    (h : prepareEach sha256Hex driver artifacts = .ok prepared) :
    prepared.map (fun item => item.artifact) = artifacts ∧
      ∀ item ∈ prepared, item.rawHash = sha256Hex item.artifact.content ∧
        item.isPrimary = item.artifact.isPrimary := by
  induction artifacts generalizing prepared with
  | nil =>
    cases h
    exact ⟨rfl, fun item hitem => absurd hitem List.not_mem_nil⟩
  | cons artifact rest ih =>
    unfold prepareEach at h
    obtain ⟨item, hitem, h⟩ := bind_eq_ok.mp h
    obtain ⟨others, hothers, hpure⟩ := bind_eq_ok.mp h
    cases hpure
    obtain ⟨hartifact, hhash, hprimary⟩ := prepareArtifact_ok hitem
    obtain ⟨hmap, hall⟩ := ih hothers
    refine ⟨by rw [List.map_cons, hartifact, hmap], ?_⟩
    intro other hother
    rcases List.mem_cons.mp hother with heq | hother
    · rw [heq, hartifact]
      exact ⟨hhash, hprimary⟩
    · exact hall other hother

/-- The constructor of an artifact refuses every other file name. -/
def PlainFilenames (env : PipelineEnvironment) : Prop :=
  ∀ driverId driver artifacts, env.createDriver driverId = .ok driver →
    driver.collect = .ok artifacts → ∀ a ∈ artifacts, PlainFilename a.filename

/-- What the preparation guarantees of its items. -/
structure WellPrepared (sha256Hex : List UInt8 → String) (prepared : List PreparedArtifact) :
    Prop where
  plain : ∀ item ∈ prepared, PlainFilename item.artifact.filename
  hashed : ∀ item ∈ prepared, item.rawHash = sha256Hex item.artifact.content
  primary : (prepared.filter (fun item => item.isPrimary)).length = 1

theorem collectPrepared_wellPrepared {profile : ContextProfile} {collected : Collected}
    (hplain : PlainFilenames env) (h : collectPrepared sha256Hex env profile = .ok collected) :
    WellPrepared sha256Hex collected.prepared := by
  unfold collectPrepared at h
  obtain ⟨driver, hdriver, h⟩ := bind_eq_ok.mp h
  obtain ⟨_, _, h⟩ := bind_eq_ok.mp h
  obtain ⟨_, _, h⟩ := bind_eq_ok.mp h
  obtain ⟨artifacts, hartifacts, h⟩ := bind_eq_ok.mp h
  obtain ⟨prepared, hprepared, h⟩ := bind_eq_ok.mp h
  have hcollected : collected.prepared = prepared := by
    split at h
    · cases h
    · cases h
      rfl
  rw [hcollected]
  unfold prepareArtifacts at hprepared
  split at hprepared
  · cases hprepared
  split at hprepared
  · cases hprepared
  split at hprepared
  · cases hprepared
  rename_i hprimary
  rw [not_not] at hprimary
  obtain ⟨hmap, hall⟩ := prepareEach_ok hprepared
  refine ⟨?_, fun item hitem => (hall item hitem).1, ?_⟩
  · intro item hitem
    apply hplain _ _ _ hdriver hartifacts
    rw [← hmap]
    exact List.mem_map_of_mem hitem
  · rw [← hprimary, ← hmap, List.filter_map, List.length_map]
    congr 1
    exact List.filter_congr (fun item hitem => (hall item hitem).2)

/-- Under different keys, a file is not overwritten by the later ones. -/
theorem withArtifacts_same {deviceId : ℕ} {items : List PreparedArtifact} {objects : Objects}
    (hplain : ∀ item ∈ items, PlainFilename item.artifact.filename)
    (hkeys : (items.map (artifactKey env deviceId)).Nodup) {item : PreparedArtifact}
    (hitem : item ∈ items) {path : Path}
    (hpath : localPath (artifactKey env deviceId item) = some path) :
    withArtifacts env deviceId objects items path = some item.artifact.content := by
  induction items generalizing objects with
  | nil => cases hitem
  | cons first rest ih =>
    rw [List.map_cons, List.nodup_cons] at hkeys
    rcases List.mem_cons.mp hitem with heq | hrest
    · subst heq
      have hothers : ∀ other ∈ rest, localPath (artifactKey env deviceId other) ≠ some path := by
        intro other hother hsame
        have hname := localPath_injective (hplain other (List.mem_cons_of_mem _ hother))
          (hplain item List.mem_cons_self) hsame hpath
        apply hkeys.1
        rw [List.mem_map]
        refine ⟨other, hother, ?_⟩
        unfold artifactKey
        rw [hname]
      show withArtifacts env deviceId (withFile _ _ objects) rest path = _
      rw [withArtifacts_other hothers]
      exact withFile_same hpath _ _
    · exact ih (fun other hother => hplain other (List.mem_cons_of_mem _ hother)) hkeys.2 hrest

/-- The rows of a committed revision are its records. -/
theorem commitRevision_artifacts {scheduler : Scheduler} {runId : ℕ} {db db' : Database}
    {previous : Option ConfigRevision} {commit : RevisionCommit} (howned : ArtifactsOwned db)
    (h : commitRevision scheduler db runId previous commit = some db') :
    (db'.artifactsOf db.revisions.next).map artifactRecord = commit.artifacts := by
  obtain ⟨run, target, _, _, hdb⟩ := commitRevision_eq_some h
  obtain ⟨news, hrows, hrecords, hrevision⟩ :=
    createArtifacts_rows db.artifacts db.revisions.next commit.artifacts
  have hold : db.artifacts.rows.filter (fun a => a.revision == db.revisions.next) = [] := by
    rw [List.filter_eq_nil_iff]
    intro a ha hsame
    obtain ⟨owner, howner, hpk⟩ := howned a ha
    have hbelow := db.revisions.below owner howner
    rw [hpk, beq_iff_eq.mp hsame] at hbelow
    exact lt_irrefl _ hbelow
  have hall : news.filter (fun a => a.revision == db.revisions.next) = news :=
    List.filter_eq_self.mpr (fun a ha => beq_iff_eq.mpr (hrevision a ha))
  have hartifacts : db'.artifacts.rows = db.artifacts.rows ++ news := by
    rw [hdb]
    exact hrows
  unfold Database.artifactsOf
  rw [hartifacts, List.filter_append, hold, hall, List.nil_append, hrecords]

theorem commitRevision_new {scheduler : Scheduler} {runId : ℕ} {db db' : Database}
    {previous : Option ConfigRevision} {commit : RevisionCommit}
    (h : commitRevision scheduler db runId previous commit = some db') {r : ConfigRevision}
    (hr : r ∈ db'.revisions) (hnew : r ∉ db.revisions) : r.pk = db.revisions.next := by
  obtain ⟨run, target, _, _, hdb⟩ := commitRevision_eq_some h
  rw [hdb] at hr
  rw [((Table.mem_insert _ _ (newRevision_pk _ _ _) r).mp hr).resolve_left hnew]
  rfl

/-- The revision of a body that returned is readable. -/
theorem StoredBackup.readable {scheduler : Scheduler} {runId : ℕ} {context : ExecutionContext}
    {running : Database} {collected : Collected} {objects : Objects}
    {t : Session Database StorageWorld} (howned : ArtifactsOwned running)
    (hprepared : WellPrepared sha256Hex collected.prepared)
    (h : StoredBackup env scheduler runId context running collected objects t) :
    RevisionReadable sha256Hex t.db t.world.objects running.revisions.next := by
  obtain ⟨contentChanged, rawChanged, hcommit⟩ := h.commit
  have hrecords : (t.db.artifactsOf running.revisions.next).map artifactRecord =
      collected.prepared.map (fun item =>
        storedRecord env context.deviceId item item.artifact.content.length) :=
    commitRevision_artifacts howned hcommit
  refine ⟨?_, ?_, ?_⟩
  · intro a ha
    have hrecord := List.mem_map_of_mem (f := artifactRecord) ha
    rw [hrecords] at hrecord
    obtain ⟨item, hitem, hsame⟩ := List.mem_map.mp hrecord
    have hstorageKey : artifactKey env context.deviceId item = a.storageKey :=
      congrArg StoredArtifactRecord.storageKey hsame
    refine ⟨item.artifact.content, ?_, congrArg StoredArtifactRecord.size hsame, ?_⟩
    · obtain ⟨path, hpath⟩ := Option.ne_none_iff_exists'.mp (h.paths item hitem)
      unfold getObject
      rw [← hstorageKey, hpath, Option.bind_some, h.files]
      exact withArtifacts_same hprepared.plain h.keys.1 hitem hpath
    · rw [← hprepared.hashed item hitem]
      exact congrArg StoredArtifactRecord.rawHash hsame
  · have hkeys := congrArg (List.map StoredArtifactRecord.storageKey) hrecords
    rw [List.map_map, List.map_map] at hkeys
    have hnodup := h.keys.1
    exact hkeys ▸ hnodup
  · have hfilter := congrArg (List.filter StoredArtifactRecord.isPrimary) hrecords
    rw [List.filter_map, List.filter_map] at hfilter
    have hlength := congrArg List.length hfilter
    rw [List.length_map, List.length_map] at hlength
    exact hlength.trans hprepared.primary

end Readable

section Outcome

variable {env : PipelineEnvironment} {faults : ExecutionFaults} {scheduler : Scheduler}
  {sha256Hex : List UInt8 → String} {runId : ℕ} {db : Database} {objects : Objects}

/-- The run ends successful, and the revisions it created are readable. -/
structure BackupSucceeded (sha256Hex : List UInt8 → String) (runId : ℕ) (db : Database)
    (outcome : StoredOutcome) : Prop where
  result : ∃ result, outcome.result = some result ∧
    (result.status = .successChanged ∨ result.status = .successUnchanged)
  run : HasStatus outcome.db runId .successChanged ∨ HasStatus outcome.db runId .successUnchanged
  revisions : ∀ r ∈ outcome.db.revisions, r ∉ db.revisions →
    RevisionReadable sha256Hex outcome.db outcome.objects r.pk

/-- The run ends failed or errored without a new revision and, if the deletions of
the rollback succeed, without a new file. -/
structure BackupFailed (faults : ExecutionFaults) (runId : ℕ) (db : Database) (objects : Objects)
    (outcome : StoredOutcome) : Prop where
  run : HasStatus outcome.db runId .failed ∨ HasStatus outcome.db runId .errored
  revisions : ∀ r ∈ outcome.db.revisions, r ∈ db.revisions
  files : (∀ n, faults.delete n = false) → ∀ path content,
    outcome.objects path = some content → objects path = some content

def AllOrNothing (env : PipelineEnvironment) (faults : ExecutionFaults) (scheduler : Scheduler)
    (sha256Hex : List UInt8 → String) (runId : ℕ) (db : Database) (objects : Objects) : Prop :=
  let outcome := executeStored env faults scheduler sha256Hex runId db objects
  BackupSucceeded sha256Hex runId db outcome ∨ BackupFailed faults runId db objects outcome

/-- The handler can record the failure, or the run has failed before. -/
def Recordable (faults : ExecutionFaults) (runId : ℕ) (db : Database) : Prop :=
  (HasRun db runId ∧ faults.markFailed = false) ∨
    HasStatus db runId .failed ∨ HasStatus db runId .errored

/-- A body that raised has not failed the run by itself. -/
theorem failed_iff_of_body {u : Database}
    (hdb : u = db ∨ markRunning db runId env.startedAt = some u) :
    (HasStatus u runId .failed ∨ HasStatus u runId .errored) ↔
      HasStatus db runId .failed ∨ HasStatus db runId .errored := by
  rcases hdb with heq | hmarked
  · rw [heq]
  · obtain ⟨hqueued, _, hrunning⟩ := markRunning_spec hmarked
    refine iff_of_false ?_ ?_
    · rintro (h | h)
      · cases h.unique hrunning
      · cases h.unique hrunning
    · rintro (h | h)
      · cases h.unique hqueued
      · cases h.unique hqueued

theorem body_keeps {u : Database} (hdb : u = db ∨ markRunning db runId env.startedAt = some u) :
    (HasRun u runId ↔ HasRun db runId) ∧ u.revisions = db.revisions := by
  rcases hdb with heq | hmarked
  · rw [heq]
    exact ⟨Iff.rfl, rfl⟩
  · exact ⟨(markRunning_keeps hmarked).1, (markRunning_keeps hmarked).2.1⟩

/-- The rows after the exception handler of a body that left the database `u`. -/
theorem recordFailure_spec (scheduler : Scheduler) {u : Database} (e : Raised)
    (hdb : u = db ∨ markRunning db runId env.startedAt = some u) :
    (∀ result, (recordFailure scheduler env runId u e).result = some result →
        result.status = .failed) ∧
      (recordFailure scheduler env runId u e).db.revisions = db.revisions ∧
      ((HasStatus (recordFailure scheduler env runId u e).db runId .failed ∨
          HasStatus (recordFailure scheduler env runId u e).db runId .errored) ↔
        HasRun db runId ∨ HasStatus db runId .failed ∨ HasStatus db runId .errored) := by
  obtain ⟨hrun, hrevisions⟩ := body_keeps hdb
  -- the handler writes the failure, or the row is left as the body left it
  have hrecorded : ∀ failure : RunFailure, (failure.status = .failed ∨ failure.status = .errored) →
      ∀ u', markFailed scheduler u runId failure env.finishedAt = some u' →
        u'.revisions = db.revisions ∧ ((HasStatus u' runId .failed ∨ HasStatus u' runId .errored) ↔
          HasRun db runId ∨ HasStatus db runId .failed ∨ HasStatus db runId .errored) := by
    intro failure hfailure u' hmark
    obtain ⟨hstatus, hrows⟩ := markFailed_writes hmark
    refine ⟨hrows.trans hrevisions, iff_of_true ?_ (Or.inl (hrun.mp (hasRun_of_markFailed hmark)))⟩
    rcases hfailure with hfailed | herrored
    · exact Or.inl (hfailed ▸ hstatus)
    · exact Or.inr (herrored ▸ hstatus)
  have hlost : ∀ failure : RunFailure,
      markFailed scheduler u runId failure env.finishedAt = none →
        ((HasStatus u runId .failed ∨ HasStatus u runId .errored) ↔
          HasRun db runId ∨ HasStatus db runId .failed ∨ HasStatus db runId .errored) := by
    intro failure hnone
    have hnot : ¬ HasRun db runId := by
      intro h
      obtain ⟨_, hmark⟩ := exists_markFailed scheduler (hrun.mpr h) failure
        env.finishedAt
      rw [hnone] at hmark
      cases hmark
    rw [or_iff_right hnot]
    exact failed_iff_of_body hdb
  cases e with
  | expected errorCode safeMessage =>
    unfold recordFailure
    dsimp only
    cases hmark : markFailed scheduler u runId
        ⟨.failed, errorCode, truncated env.errorMessageMaxLength safeMessage⟩ env.finishedAt with
    | none => exact ⟨fun _ h => (by cases h), hrevisions, hlost _ hmark⟩
    | some u' =>
      refine ⟨?_, hrecorded _ (Or.inl rfl) _ hmark⟩
      intro result hresult
      cases hresult
      rfl
  | unexpected =>
    unfold recordFailure
    dsimp only
    cases hmark : markFailed scheduler u runId internalError env.finishedAt with
    | none => exact ⟨fun _ h => (by cases h), hrevisions, hlost _ hmark⟩
    | some u' => exact ⟨fun _ h => (by cases h), hrecorded _ (Or.inr rfl) _ hmark⟩

/-- An execution whose body raised can only fail. -/
theorem allOrNothing_raised {outcome : StoredOutcome}
    (hresult : ∀ result, outcome.result = some result → result.status = .failed)
    (hrevisions : outcome.db.revisions = db.revisions)
    (hrun : (HasStatus outcome.db runId .failed ∨ HasStatus outcome.db runId .errored) ↔
      Recordable faults runId db)
    (hfiles : (∀ n, faults.delete n = false) → ((∀ path content,
      outcome.objects path = some content → objects path = some content) ↔
        ¬ Orphans env faults sha256Hex runId db objects)) :
    (BackupSucceeded sha256Hex runId db outcome ∨ BackupFailed faults runId db objects outcome) ↔
      Recordable faults runId db ∧ ((∀ n, faults.delete n = false) →
        ¬ Orphans env faults sha256Hex runId db objects) := by
  constructor
  · rintro (hsucceeded | hfailed)
    · obtain ⟨result, hsome, hstatus⟩ := hsucceeded.result
      rw [hresult result hsome] at hstatus
      rcases hstatus with hstatus | hstatus <;> cases hstatus
    · exact ⟨hrun.mp hfailed.run, fun hdeletes => (hfiles hdeletes).mp (hfailed.files hdeletes)⟩
  · intro ⟨hrecorded, horphans⟩
    exact Or.inr ⟨hrun.mpr hrecorded, fun r hr => hrevisions ▸ hr,
      fun hdeletes => (hfiles hdeletes).mpr (horphans hdeletes)⟩

theorem succeeded_of_returned {result : BackupResult} {t : Session Database StorageWorld}
    (hplain : PlainFilenames env) (howned : ArtifactsOwned db)
    (hstatus : result.status = .successChanged ∨ result.status = .successUnchanged)
    (h : BodyReturned env faults scheduler sha256Hex runId db objects t) :
    BackupSucceeded sha256Hex runId db ⟨some result, t.db, t.world.objects⟩ := by
  obtain ⟨context, running, collected, latest, hreached, hend⟩ := h
  obtain ⟨_, hrevisions, hartifacts⟩ := markRunning_keeps hreached.marked
  rcases hend with ⟨revision, rawChanged, hcommit⟩ | hstored
  · refine ⟨⟨result, rfl, hstatus⟩, Or.inr (commitUnchanged_status hcommit), ?_⟩
    intro r hr hnew
    change r ∈ t.db.revisions at hr
    rw [(commitUnchanged_frame hcommit).1, hrevisions] at hr
    exact absurd hr hnew
  · obtain ⟨contentChanged, rawChanged, hcommit⟩ := hstored.commit
    have howned' : ArtifactsOwned running := by
      unfold ArtifactsOwned
      rw [hartifacts, hrevisions]
      exact howned
    refine ⟨⟨result, rfl, hstatus⟩, ?_, ?_⟩
    · have hrun := commitRevision_status hcommit
      cases contentChanged
      · exact Or.inr hrun
      · exact Or.inl hrun
    · intro r hr hnew
      rw [← hrevisions] at hnew
      rw [commitRevision_new hcommit hr hnew]
      exact hstored.readable howned' (collectPrepared_wellPrepared hplain hreached.collects)

/-- An execution is all or nothing exactly when its body returns, or when the failure
can be recorded and, with a working deletion, no put leaves an orphan. -/
theorem backup_all_or_nothing_iff (env : PipelineEnvironment) (faults : ExecutionFaults)
    (scheduler : Scheduler) (sha256Hex : List UInt8 → String) (runId : ℕ) (db : Database)
    (objects : Objects) (hplain : PlainFilenames env) (howned : ArtifactsOwned db) :
    AllOrNothing env faults scheduler sha256Hex runId db objects ↔
      Committed env faults sha256Hex runId db ∨
        (Recordable faults runId db ∧ ((∀ n, faults.delete n = false) →
          ¬ Orphans env faults sha256Hex runId db objects)) := by
  unfold AllOrNothing executeStored
  rcases tryBlock_spec env faults scheduler sha256Hex runId db objects with
    ⟨hcommitted, result, t, hbody, hstatus, hreturned⟩ | ⟨hnot, e, t, hbody, hdb, hfiles⟩
  · rw [hbody]
    exact iff_of_true (Or.inl (succeeded_of_returned hplain howned hstatus hreturned))
      (Or.inl hcommitted)
  · rw [hbody, or_iff_right hnot]
    dsimp only
    cases hmark : faults.markFailed with
    | true =>
      rw [if_pos rfl]
      refine allOrNothing_raised (fun _ h => by cases h) (body_keeps hdb).2 ?_ hfiles
      have hnever : ¬ (HasRun db runId ∧ faults.markFailed = false) := by
        intro h
        rw [hmark] at h
        cases h.2
      unfold Recordable
      exact (failed_iff_of_body hdb).trans (or_iff_right hnever).symm
    | false =>
      rw [if_neg Bool.false_ne_true]
      obtain ⟨hresult, hrevisions, hrun⟩ :=
        recordFailure_spec scheduler e hdb
      refine allOrNothing_raised hresult hrevisions ?_ hfiles
      unfold Recordable
      rw [hmark, and_iff_left rfl]
      exact hrun

/-- A target with one queued run. -/
def queuedBackup : Database :=
  { newTargetDatabase with runs := ⟨[newRun 1 (days 0) none 1], 2, by decide, by decide⟩ }

/-- Every put raises at the given step. -/
def putFails (putStep : PutStep) : ExecutionFaults where
  repository _ := false
  put _ := some (putStep, .expected "STORAGE_FAILED" "Local configuration write failed.")
  delete _ := false
  markFailed := false

theorem plainFilenames_rollbackBackup : PlainFilenames rollbackBackup := by
  intro driverId driver artifacts hdriver hcollect a ha
  cases hdriver
  cases hcollect
  rw [List.mem_singleton.mp ha]
  refine ⟨by decide, by decide, by decide⟩

theorem artifactsOwned_queuedBackup : ArtifactsOwned queuedBackup :=
  fun a ha => absurd ha (Table.mem_empty a)

/-- A put that raises before its rename leaves nothing. -/
theorem backup_all_or_nothing_iff_write : AllOrNothing rollbackBackup (putFails .writeTemporary)
    noSchedule sha256OfLetter 1 queuedBackup (fun _ => none) := by
  refine (backup_all_or_nothing_iff _ _ _ _ _ _ _ plainFilenames_rollbackBackup
    artifactsOwned_queuedBackup).mpr (Or.inr ⟨Or.inl ⟨⟨_, _, rfl, rfl⟩, rfl⟩, fun _ => ?_⟩)
  intro ⟨_, _, _, _, _, _, _, _, _, _, _, _, ⟨_, _, _, hfault, hvisible⟩, _⟩
  cases hfault
  cases hvisible

/-- The path of the file in the example. -/
def runningPath : Path :=
  ["devices".toList, "7".toList, "revisions".toList, "d".toList, "running.txt".toList]

/-- The mode of the file cannot be set once the file is in place: the run fails and
the file stays without a row. -/
theorem orphaned_backup_file : ¬ ∀ (env : PipelineEnvironment) (faults : ExecutionFaults)
    (scheduler : Scheduler) (sha256Hex : List UInt8 → String) (runId : ℕ) (db : Database)
    (objects : Objects), PlainFilenames env → ArtifactsOwned db →
      AllOrNothing env faults scheduler sha256Hex runId db objects := by
  intro h
  have hresult : (executeStored rollbackBackup (putFails .setMode) noSchedule sha256OfLetter 1
      queuedBackup (fun _ => none)).result =
        some ⟨1, .failed, false, false, none, "STORAGE_FAILED"⟩ := by decide +kernel
  have hfile : (executeStored rollbackBackup (putFails .setMode) noSchedule sha256OfLetter 1
      queuedBackup (fun _ => none)).objects runningPath = some [97] := by decide +kernel
  rcases h rollbackBackup (putFails .setMode) noSchedule sha256OfLetter 1 queuedBackup
      (fun _ => none) plainFilenames_rollbackBackup artifactsOwned_queuedBackup with
    hsucceeded | hfailed
  · obtain ⟨result, hsome, hstatus⟩ := hsucceeded.result
    rw [hresult, Option.some.injEq] at hsome
    rw [← hsome] at hstatus
    rcases hstatus with hstatus | hstatus <;> cases hstatus
  · cases hfailed.files (fun _ => rfl) runningPath [97] hfile

end Outcome

end ConfigBackup.PipelineStorage
