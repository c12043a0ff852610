import ConfigBackup.ReplicaSystem

/-!
The automatic retries of one copy. After an enqueue every attempt fails, and
the dispatcher queues the copy again while a retry is scheduled. A row counts
all attempts of its life and the failure path compares this count with the
storage's retries, so the attempts before the enqueue use up retries too.
-/

namespace ConfigBackup.RetryBudget

open Calendar GuardedRuns Models NewestCopies ReplicaSystem Replication Tables

variable (nfkd : String → String)

/-- The dispatcher's query returns the copy and its transaction queues it. -/
def automaticRetry (db : Database) (replicaId : ℕ) (now : Instant) (limit jobId : ℕ) :
    Option Database :=
  if replicaId ∈ dueReplicas db now limit then
    match enqueueRevisionReplica db replicaId false now jobId with
    | some (db', some _) => some db'
    | _ => none
  else none

/-- Between two databases neither the row of the copy nor its storage's retries
change; what happens to other rows is free. -/
structure SameCopy (replicaId : ℕ) (db db' : Database) : Prop where
  replica : db'.replicas.get? replicaId = db.replicas.get? replicaId
  maxRetries : ∀ k, (db'.destinations.get? k).map BackupDestination.maxRetries =
    (db.destinations.get? k).map BackupDestination.maxRetries

inductive Stage
  | queued | running | failed
deriving DecidableEq, Repr

/-- Every attempt since the enqueue that left `start` has failed, and the copy
has received `k` automatic retries. -/
inductive FailingRun (replicaId : ℕ) (start : Database) : Stage → ℕ → Database → Prop
  | enqueued : FailingRun replicaId start .queued 0 start
  | attempt {k : ℕ} {db db' : Database} {now : Instant} {loaded : LoadedReplica}
      (before : FailingRun replicaId start .queued k db)
      (hstart : markRunning nfkd db replicaId now = .ok (db', loaded)) :
      FailingRun replicaId start .running k db'
  | failure {k : ℕ} {db db' : Database} {error : DestinationError} {now : Instant}
      (before : FailingRun replicaId start .running k db)
      (hfailed : markFailed db replicaId error now = some db') :
      FailingRun replicaId start .failed k db'
  | retry {k : ℕ} {db db' : Database} {now : Instant} {limit jobId : ℕ}
      (before : FailingRun replicaId start .failed k db)
      (hretry : automaticRetry db replicaId now limit jobId = some db') :
      FailingRun replicaId start .queued (k + 1) db'
  | elsewhere {stage : Stage} {k : ℕ} {db db' : Database}
      (before : FailingRun replicaId start stage k db) (hsame : SameCopy replicaId db db') :
      FailingRun replicaId start stage k db'

/-- The copy receives exactly as many automatic retries as its storage allows:
one follows a failed attempt as long as there were fewer. -/
def ExactRetries (replicaId : ℕ) (start : Database) (maxRetries : ℕ) : Prop :=
  ∀ k db replica, FailingRun nfkd replicaId start .failed k db →
    db.replicas.get? replicaId = some replica → (replica.nextRetryAt.isSome ↔ k < maxRetries)

variable {nfkd} {replicaId : ℕ} {db db' start : Database}

/-- What a failing run knows about its row: it counts on from the attempts
before the enqueue. -/
structure Counted (destinationId attempts maxRetries : ℕ) (stage : Stage) (k : ℕ)
    (replicaId : ℕ) (db : Database) : Prop where
  row : ∃ replica, db.replicas.get? replicaId = some replica ∧
    replica.destination = destinationId ∧
    replica.attempts = attempts + k + (if stage = .queued then 0 else 1) ∧
    (stage = .failed → (replica.nextRetryAt.isSome ↔ attempts + k < maxRetries))
  retries : (db.destinations.get? destinationId).map BackupDestination.maxRetries =
    some maxRetries

theorem maxRetries_saveDestination {k destinationId : ℕ}
    {f : BackupDestination → BackupDestination} {hf : ∀ d, (f d).pk = d.pk}
    (h : ∀ d, (f d).maxRetries = d.maxRetries) :
    ((saveDestination db destinationId f hf).destinations.get? k).map
      BackupDestination.maxRetries = (db.destinations.get? k).map BackupDestination.maxRetries := by
  unfold saveDestination
  rw [Table.get?_update]
  by_cases hk : k = destinationId
  · rw [if_pos hk]
    cases db.destinations.get? k with
    | none => rfl
    | some d => exact congrArg some (h d)
  · rw [if_neg hk]

/-- The automatic retry of a failed copy is an enqueue of its row. -/
theorem automaticRetry_spec {now : Instant} {limit jobId : ℕ}
    (h : automaticRetry db replicaId now limit jobId = some db') :
    db' = db ∨ db' = saveReplica db replicaId (queuedReplica now jobId) (fun _ => rfl) := by
  unfold automaticRetry at h
  split at h
  · split at h
    · rename_i db'' job henqueue
      rw [Option.some.injEq] at h
      subst h
      rcases enqueue_spec henqueue with hsame | ⟨_, _, _, _, _, hsaved⟩
      · exact Or.inl hsame
      · exact Or.inr hsaved
    · cases h
  · cases h

theorem get?_saveReplica {replica : RevisionReplica} {f : RevisionReplica → RevisionReplica}
    {hf : ∀ r, (f r).pk = r.pk} (h : db.replicas.get? replicaId = some replica) :
    (saveReplica db replicaId f hf).replicas.get? replicaId = some (f replica) := by
  unfold saveReplica
  rw [Table.get?_update, if_pos rfl, h]
  rfl

theorem get?_saveDestination {k : ℕ} {destination : BackupDestination}
    {f : BackupDestination → BackupDestination} {hf : ∀ d, (f d).pk = d.pk}
    (h : db.destinations.get? k = some destination) :
    (saveDestination db k f hf).destinations.get? k = some (f destination) := by
  unfold saveDestination
  rw [Table.get?_update, if_pos rfl, h]
  rfl

@[simp] theorem failedReplica_pk (error : DestinationError) (maxRetries delay : ℕ)
    (now : Instant) (r : RevisionReplica) :
    (failedReplica error maxRetries delay now r).pk = r.pk := rfl

/-- The failure path reads the retries of the row's storage and leaves them. -/
theorem markFailed_row {replica : RevisionReplica} {error : DestinationError} {now : Instant}
    (hreplica : db.replicas.get? replicaId = some replica)
    (h : markFailed db replicaId error now = some db') :
    ∃ destination, db.destinations.get? replica.destination = some destination ∧
      db'.replicas.get? replicaId = some (failedReplica error destination.maxRetries
        destination.retryDelayMinutes now replica) ∧
      ∀ k, (db'.destinations.get? k).map BackupDestination.maxRetries =
        (db.destinations.get? k).map BackupDestination.maxRetries := by
  unfold markFailed at h
  obtain ⟨row, hrow, h⟩ := Option.bind_eq_some_iff.mp h
  rw [hreplica, Option.some.injEq] at hrow
  subst row
  obtain ⟨destination, hdestination, h⟩ := Option.bind_eq_some_iff.mp h
  rw [← Option.some.inj h]
  refine ⟨destination, hdestination, ?_, ?_⟩
  · exact @get?_saveReplica _ _ _ _ (failedReplica_pk error _ _ now) hreplica
  · intro k
    exact @maxRetries_saveDestination (saveReplica db replicaId (failedReplica error _ _ now)
      (failedReplica_pk error _ _ now)) k replica.destination (failedDestination error)
      (fun _ => rfl) (fun _ => rfl)

theorem counted_failingRun {destinationId attempts maxRetries : ℕ}
    (hstart : Counted destinationId attempts maxRetries .queued 0 replicaId start) {stage : Stage}
    {k : ℕ} (h : FailingRun nfkd replicaId start stage k db) :
    Counted destinationId attempts maxRetries stage k replicaId db := by
  induction h with
  | enqueued => exact hstart
  | @attempt k db db' now loaded before hrunning ih =>
    obtain ⟨⟨replica, hreplica, hdestination, hattempts, _⟩, hretries⟩ := ih
    obtain ⟨loadedBefore, path, hload, _, _, _, rfl, _⟩ := markRunning_spec hrunning
    refine ⟨⟨runningReplica path now replica, get?_saveReplica hreplica, hdestination, ?_,
      by simp⟩, hretries⟩
    rw [if_neg (by decide)]
    rw [if_pos rfl] at hattempts
    show replica.attempts + 1 = attempts + k + 1
    omega
  | @failure k db db' error now before hfailed ih =>
    obtain ⟨⟨replica, hreplica, hdestination, hattempts, _⟩, hretries⟩ := ih
    obtain ⟨destination, hrow, hafter, hsame⟩ := markFailed_row hreplica hfailed
    refine ⟨⟨_, hafter, hdestination, hattempts, ?_⟩, (hsame _).trans hretries⟩
    intro _
    rw [hdestination] at hrow
    rw [hrow, Option.map_some, Option.some.injEq] at hretries
    have hcount : replica.attempts = attempts + k + 1 := by
      rw [if_neg (by decide)] at hattempts
      exact hattempts
    unfold failedReplica
    dsimp only
    rw [hretries, hcount]
    by_cases hleft : attempts + k + 1 ≤ maxRetries
    · rw [if_pos hleft]
      simp only [Option.isSome_some, true_iff]
      omega
    · rw [if_neg hleft]
      simp only [Option.isSome_none, Bool.false_eq_true, false_iff]
      omega
  | @retry k db db' now limit jobId before hretry ih =>
    obtain ⟨⟨replica, hreplica, hdestination, hattempts, _⟩, hretries⟩ := ih
    have hcount : replica.attempts = attempts + (k + 1) + 0 := by
      rw [if_neg (by decide)] at hattempts
      omega
    rcases automaticRetry_spec hretry with rfl | rfl
    · exact ⟨⟨replica, hreplica, hdestination, hcount, by simp⟩, hretries⟩
    · exact ⟨⟨queuedReplica now jobId replica, get?_saveReplica hreplica, hdestination, hcount,
        by simp⟩, hretries⟩
  | elsewhere before hsame ih =>
    obtain ⟨⟨replica, hreplica, hrow⟩, hretries⟩ := ih
    exact ⟨⟨replica, hsame.replica.trans hreplica, hrow⟩, (hsame.maxRetries _).trans hretries⟩

@[simp] theorem runningReplica_pk (path : String) (now : Instant) (r : RevisionReplica) :
    (runningReplica path now r).pk = r.pk := rfl

@[simp] theorem queuedReplica_pk (now : Instant) (jobId : ℕ) (r : RevisionReplica) :
    (queuedReplica now jobId r).pk = r.pk := rfl

/-- A copy whose rows let an attempt start and the dispatcher queue it. -/
structure Startable (nfkd : String → String) (replicaId : ℕ) (db : Database)
    (replica : RevisionReplica) : Prop where
  row : db.replicas.get? replicaId = some replica
  live : replica.remoteDeletedAt = none
  destination : ∃ destination, db.destinations.get? replica.destination = some destination ∧
    destination.enabled = true ∧ destination.protocol.replicated = true
  revision : ∃ revision, db.revisions.get? replica.revision = some revision ∧
    (db.targets.get? revision.target).isSome
  path : ∀ loaded, loadReplica db replicaId = some loaded → (pathToRecord nfkd loaded).isSome

theorem loadReplica_row {loaded : LoadedReplica} {replica : RevisionReplica}
    (hreplica : db.replicas.get? replicaId = some replica)
    (hload : loadReplica db replicaId = some loaded) : loaded.replica = replica := by
  have hrow := (loadReplica_spec hload).1
  rw [hreplica, Option.some.injEq] at hrow
  exact hrow.symm

theorem pathToRecord_of_recorded {loaded : LoadedReplica} (h : loaded.replica.remotePath ≠ "") :
    (pathToRecord nfkd loaded).isSome := by
  unfold pathToRecord
  rw [if_pos (by simpa using h)]
  rfl

theorem Startable.load {replica : RevisionReplica} (h : Startable nfkd replicaId db replica) :
    ∃ loaded path, loadReplica db replicaId = some loaded ∧ loaded.replica = replica ∧
      loaded.destination.enabled = true ∧ pathToRecord nfkd loaded = some path := by
  obtain ⟨destination, hdest, henabled, _⟩ := h.destination
  obtain ⟨revision, hrev, htarget⟩ := h.revision
  obtain ⟨target, htarget⟩ := Option.isSome_iff_exists.mp htarget
  have hload : loadReplica db replicaId = some ⟨replica, destination, revision, target⟩ := by
    unfold loadReplica
    simp only [h.row, hdest, hrev, htarget, Option.bind_eq_bind, Option.bind_some]
  obtain ⟨path, hpath⟩ := Option.isSome_iff_exists.mp (h.path _ hload)
  exact ⟨_, path, hload, rfl, henabled, hpath⟩

/-- A queued copy that can start is tried and fails. -/
theorem exists_failure {replica : RevisionReplica} (h : Startable nfkd replicaId db replica)
    (hstatus : readyToRun replica.status = true) (now : Instant) (error : DestinationError) :
    ∃ loaded db₁ db₂ failed, markRunning nfkd db replicaId now = .ok (db₁, loaded) ∧
      markFailed db₁ replicaId error now = some db₂ ∧ Startable nfkd replicaId db₂ failed ∧
      failed.status = .failed ∧ failed.remotePath ≠ "" := by
  obtain ⟨loaded, path, hload, hreplica, henabled, hpath⟩ := h.load
  obtain ⟨destination, hdest, hdestEnabled, hreplicated⟩ := h.destination
  let db₁ := saveReplica db replicaId (runningReplica path now) (runningReplica_pk path now)
  have hrunning : markRunning nfkd db replicaId now =
      .ok (db₁, { loaded with replica := runningReplica path now loaded.replica }) := by
    unfold markRunning
    simp only [hload, henabled, hreplica, h.live, hstatus, hpath]
    rfl
  have hrow₁ : db₁.replicas.get? replicaId = some (runningReplica path now replica) :=
    get?_saveReplica h.row
  let failed := failedReplica error destination.maxRetries destination.retryDelayMinutes now
    (runningReplica path now replica)
  let db₂ := saveDestination (saveReplica db₁ replicaId (failedReplica error
    destination.maxRetries destination.retryDelayMinutes now) (failedReplica_pk error _ _ now))
    replica.destination (failedDestination error) (fun _ => rfl)
  have hfailed : markFailed db₁ replicaId error now = some db₂ := by
    unfold markFailed
    rw [hrow₁]
    have hdest₁ : db₁.destinations.get? (runningReplica path now replica).destination =
        some destination := hdest
    simp only [Option.bind_eq_bind, Option.bind_some, hdest₁]
    rfl
  have hrow₂ : db₂.replicas.get? replicaId = some failed :=
    @get?_saveReplica _ _ _ _ (failedReplica_pk error _ _ now) hrow₁
  have hrecorded : path ≠ "" := pathToRecord_ne_empty hpath
  refine ⟨_, db₁, db₂, failed, hrunning, hfailed, ?_, rfl, hrecorded⟩
  refine { row := hrow₂, live := h.live, destination := ?_, revision := h.revision, path := ?_ }
  · have hdest₁ : db₁.destinations.get? replica.destination = some destination := hdest
    exact ⟨failedDestination error destination,
      @get?_saveDestination (saveReplica db₁ replicaId _ (failedReplica_pk error _ _ now)) _ _
        (failedDestination error) (fun _ => rfl) hdest₁, hdestEnabled, hreplicated⟩
  · intro loaded' hload'
    apply pathToRecord_of_recorded
    rw [loadReplica_row hrow₂ hload']
    exact hrecorded

/-- The dispatcher queues a failed copy once its retry is due. -/
theorem exists_retry {replica : RevisionReplica} {due : Instant} (jobId : ℕ)
    (h : Startable nfkd replicaId db replica) (hfailed : replica.status = .failed)
    (hrecorded : replica.remotePath ≠ "") (hdue : replica.nextRetryAt = some due) :
    ∃ limit db', automaticRetry db replicaId due limit jobId = some db' ∧
      Startable nfkd replicaId db' (queuedReplica due jobId replica) := by
  obtain ⟨destination, hdest, henabled, hreplicated⟩ := h.destination
  obtain ⟨hmem, hpk⟩ := (Table.get?_eq_some_iff _ _ _).mp h.row
  have hcandidate : replicaId ∈ dueReplicas db due db.replicas.rows.length := by
    unfold dueReplicas
    rw [List.take_of_length_le (by
      rw [List.length_map, List.length_insertionSort]
      exact List.length_filter_le _ _)]
    refine List.mem_map.mpr ⟨replica, (List.mem_insertionSort _).mpr ?_, hpk⟩
    refine List.mem_filter.mpr ⟨hmem, ?_⟩
    simp [hdest, henabled, hreplicated, h.live, hfailed, hdue]
  let db' := saveReplica db replicaId (queuedReplica due jobId) (queuedReplica_pk due jobId)
  have hrow : db'.replicas.get? replicaId = some (queuedReplica due jobId replica) :=
    get?_saveReplica h.row
  refine ⟨db.replicas.rows.length, db', ?_, ?_⟩
  · unfold automaticRetry enqueueRevisionReplica
    rw [if_pos hcandidate]
    simp only [h.row, hdest, henabled, hreplicated, h.live, hfailed, Option.bind_eq_bind,
      Option.bind_some]
    rfl
  · refine ⟨hrow, h.live, ⟨destination, hdest, henabled, hreplicated⟩, h.revision, ?_⟩
    intro loaded' hload'
    apply pathToRecord_of_recorded
    rw [loadReplica_row hrow hload']
    exact hrecorded

/-- While retries are left, the copy gets as many as one asks for. -/
theorem exists_failingRun {destinationId attempts maxRetries : ℕ} {replica : RevisionReplica}
    (hstart : Counted destinationId attempts maxRetries .queued 0 replicaId start)
    (h : Startable nfkd replicaId start replica) (hqueued : replica.status = .queued) (k : ℕ)
    (hk : attempts + k ≤ maxRetries ∨ k = 0) :
    ∃ db row, FailingRun nfkd replicaId start .failed k db ∧ Startable nfkd replicaId db row ∧
      row.status = .failed ∧ row.remotePath ≠ "" := by
  induction k with
  | zero =>
    obtain ⟨loaded, db₁, db₂, failed, hrunning, hfailed, hnext, hstatus, hrecorded⟩ :=
      exists_failure h (by rw [hqueued]; rfl) 0 staleReplica
    exact ⟨db₂, failed, .failure (.attempt .enqueued hrunning) hfailed, hnext, hstatus, hrecorded⟩
  | succ k ih =>
    have hleft : attempts + (k + 1) ≤ maxRetries := hk.resolve_right (Nat.succ_ne_zero k)
    obtain ⟨db, row, hrun, hrow, hstatus, hrecorded⟩ := ih (Or.inl (by omega))
    obtain ⟨replica', hreplica', _, _, hscheduled⟩ := (counted_failingRun hstart hrun).row
    rw [hrow.row, Option.some.injEq] at hreplica'
    subst hreplica'
    have hsome : row.nextRetryAt.isSome := (hscheduled rfl).mpr (by omega)
    obtain ⟨due, hdue⟩ := Option.isSome_iff_exists.mp hsome
    obtain ⟨limit, db', hretry, hqueuedRow⟩ := exists_retry 0 hrow hstatus hrecorded hdue
    obtain ⟨loaded, db₁, db₂, failed, hrunning, hfailed, hnext, hstatus', hrecorded'⟩ :=
      exists_failure hqueuedRow rfl 0 staleReplica
    exact ⟨db₂, failed, .failure (.attempt (.retry hrun hretry) hrunning) hfailed, hnext,
      hstatus', hrecorded'⟩

/-- An enqueue that queues a copy: the first one, or the forced repair of an
uploaded copy. -/
structure FreshEnqueue (db : Database) (replicaId : ℕ) (force : Bool) (now : Instant)
    (jobId : ℕ) (db' : Database) (replica : RevisionReplica) (destination : BackupDestination) :
    Prop where
  row : db.replicas.get? replicaId = some replica
  destination : db.destinations.get? replica.destination = some destination
  fresh : replica.status = .pending ∨ (force = true ∧ replica.status = .success)
  queued : enqueueRevisionReplica db replicaId force now jobId = some (db', some jobId)

theorem enqueue_some {force : Bool} {now : Instant} {jobId job : ℕ} {replica : RevisionReplica}
    {destination : BackupDestination} (hrow : db.replicas.get? replicaId = some replica)
    (hdest : db.destinations.get? replica.destination = some destination)
    (h : enqueueRevisionReplica db replicaId force now jobId = some (db', some job)) :
    destination.enabled = true ∧ destination.protocol.replicated = true ∧
      replica.remoteDeletedAt = none ∧
      db' = saveReplica db replicaId (queuedReplica now jobId) (queuedReplica_pk now jobId) := by
  unfold enqueueRevisionReplica at h
  simp only [hrow, hdest, Option.bind_eq_bind, Option.bind_some] at h
  split at h
  · simp at h
  rename_i hreplicated
  split at h
  · simp at h
  rename_i henabled
  split at h
  · simp at h
  rename_i hlive
  split at h
  · simp at h
  split at h
  · simp at h
  · exact ⟨by simpa using henabled, by simpa using hreplicated, by simpa using hlive,
      (Prod.mk.inj (Option.some.inj h)).1.symm⟩

theorem target_of_load {loaded : LoadedReplica} (h : loadReplica db replicaId = some loaded) :
    db.targets.get? loaded.revision.target = some loaded.target := by
  unfold loadReplica at h
  obtain ⟨replica, _, h⟩ := Option.bind_eq_some_iff.mp h
  obtain ⟨destination, _, h⟩ := Option.bind_eq_some_iff.mp h
  obtain ⟨revision, _, h⟩ := Option.bind_eq_some_iff.mp h
  obtain ⟨target, htarget, h⟩ := Option.bind_eq_some_iff.mp h
  rw [← Option.some.inj h]
  exact htarget

theorem FreshEnqueue.counted {force : Bool} {now : Instant} {jobId : ℕ}
    {replica : RevisionReplica} {destination : BackupDestination}
    (h : FreshEnqueue db replicaId force now jobId start replica destination) :
    Counted replica.destination replica.attempts destination.maxRetries .queued 0 replicaId
      start := by
  obtain ⟨_, _, _, rfl⟩ := enqueue_some h.row h.destination h.queued
  refine ⟨⟨queuedReplica now jobId replica, get?_saveReplica h.row, rfl, rfl, by simp⟩, ?_⟩
  exact congrArg (Option.map BackupDestination.maxRetries) h.destination

theorem FreshEnqueue.startable {force : Bool} {now t : Instant} {jobId : ℕ}
    {replica : RevisionReplica} {destination : BackupDestination} {started : Database}
    {loaded : LoadedReplica}
    (h : FreshEnqueue db replicaId force now jobId start replica destination)
    (hstarts : markRunning nfkd start replicaId t = .ok (started, loaded)) :
    Startable nfkd replicaId start (queuedReplica now jobId replica) := by
  obtain ⟨henabled, hreplicated, hlive, rfl⟩ := enqueue_some h.row h.destination h.queued
  obtain ⟨before, path, hload, _, _, hpath, _, _⟩ := markRunning_spec hstarts
  have hrow := @get?_saveReplica _ _ _ _ (queuedReplica_pk now jobId) h.row
  have hsame := loadReplica_row hrow hload
  refine ⟨hrow, hlive, ⟨destination, h.destination, henabled, hreplicated⟩, ?_, ?_⟩
  · refine ⟨before.revision, ?_, by rw [target_of_load hload]; rfl⟩
    rw [← hsame]
    exact (loadReplica_spec hload).2.2
  · intro loaded' hload'
    rw [hload, Option.some.injEq] at hload'
    rw [← hload', hpath]
    rfl

/-- The example storage, with one retry for a copy. -/
def retrySystem : System :=
  { exampleSystem with
    db := { exampleSystem.db with
      destinations := exampleSystem.db.destinations.map (fun d => { d with maxRetries := 1 })
        (fun _ => rfl) } }

def createCopy : List Step := [.createQuery 1, .create 1 1 10]

/-- The copy is queued and uploaded in one attempt. -/
def uploadCopy : List Step :=
  createCopy ++ [.enqueue 1 false 11 0, .markRunning 1 12, .upload 1, .markSuccess 1 5 13]

def created : System := (exec (step id) retrySystem createCopy).get (by decide +kernel)

def uploaded : System := (exec (step id) retrySystem uploadCopy).get (by decide +kernel)

def queuedAgain (s : System) (now : Instant) (jobId : ℕ) : Database :=
  saveReplica s.db 1 (queuedReplica now jobId) (queuedReplica_pk now jobId)

def createdRow : RevisionReplica := newReplica 1 1 10 1

def uploadedRow : RevisionReplica :=
  { createdRow with
    status := .success, attempts := 1, queuedAt := 11, startedAt := some 12
    finishedAt := some 13, bytesTransferred := 5
    remotePath := "/backups/devices/router/backups/1970-01-01_00-00-00-r1"
    remoteAvailable := true, jobId := some 0 }

theorem freshEnqueue_created : FreshEnqueue created.db 1 false 20 1 (queuedAgain created 20 1)
    createdRow { exampleDestination with maxRetries := 1 } where
  row := by decide +kernel
  destination := by decide +kernel
  fresh := Or.inl rfl
  queued := by rfl

theorem freshEnqueue_uploaded : FreshEnqueue uploaded.db 1 true 20 1 (queuedAgain uploaded 20 1)
    uploadedRow { exampleDestination with maxRetries := 1, lastSuccessAt := some 13 } where
  row := by decide +kernel
  destination := by decide +kernel
  fresh := Or.inr ⟨rfl, rfl⟩
  queued := by rfl

theorem exists_start {now : Instant} (h : (markRunning nfkd db replicaId now).isOk = true) :
    ∃ started loaded, markRunning nfkd db replicaId now = .ok (started, loaded) := by
  cases hresult : markRunning nfkd db replicaId now with
  | error raised => simp [hresult, Except.isOk, Except.toBool] at h
  | ok result => exact ⟨result.1, result.2, rfl⟩

end ConfigBackup.RetryBudget
