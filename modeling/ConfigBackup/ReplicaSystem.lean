import ConfigBackup.ConnectedChain
import ConfigBackup.DestinationEdits
import ConfigBackup.NewestCopies
import ConfigBackup.Replication

/-!
Replication as a system of independent actors. Every transaction is one step;
an execution is between its `_mark_running` and its final mark and may create
files at any moment in between, or stop without a mark. The candidates that a
dispatcher, a reconciler or a creating service has read wait as intents until
their own transaction.
-/

namespace ConfigBackup.ReplicaSystem

open Calendar ConnectedChain DestinationEdits DestinationPaths LocalRetention Models NewestCopies
  NewestFirst RemoteCleanup RemoteRetention Replication RevisionChain RevisionHistory Tables

/-- What replication and retention did to the remote storages, oldest first. -/
inductive RemoteEvent
  | wrote (replica destination : ℕ) (endpoint : Endpoint) (directory : String)
  | deleted (endpoint : Endpoint) (directory : String)
deriving DecidableEq, Repr

/-- A candidate that a query has returned and no transaction has treated yet. -/
inductive Intent
  | create (revision destination : ℕ)
  | dispatch (replica : ℕ)
  | reconcile (replica : ℕ) (job : Option ℕ)
deriving DecidableEq, Repr

/-- A worker between its `_mark_running` and its final mark. -/
structure Execution where
  pk : ℕ
  loaded : LoadedReplica

structure System where
  db : Database
  intents : List Intent
  executions : Table Execution Execution.pk
  events : List RemoteEvent

/-- A change of other rows: replica rows stay, endpoints stay, and the revisions
keep their keys and UUIDs. -/
structure Unrelated (db db' : Database) : Prop where
  replicas : db'.replicas = db.replicas
  endpoints : ∀ k, (db'.destinations.get? k).map endpointOf =
    (db.destinations.get? k).map endpointOf
  uuids : ∀ k, (db'.revisions.get? k).map ConfigRevision.revisionUuid =
    (db.revisions.get? k).map ConfigRevision.revisionUuid

/-- Any other service of the plugin. -/
structure OtherChange where
  run : Database → Database
  unrelated : ∀ db, Unrelated db (run db)

inductive Step
  | createQuery (revisionId : ℕ)
  | backfillQuery (destinationId limit : ℕ)
  | create (revisionId destinationId : ℕ) (now : Instant)
  | enqueue (replicaId : ℕ) (force : Bool) (now : Instant) (jobId : ℕ)
  | markRunning (replicaId : ℕ) (now : Instant)
  | upload (executionId : ℕ)
  | markSuccess (executionId bytesTransferred : ℕ) (now : Instant)
  | markFailed (executionId : ℕ) (error : DestinationError) (now : Instant)
  | stop (executionId : ℕ)
  | dispatchQuery (now : Instant) (limit : ℕ)
  | dispatch (replicaId : ℕ) (now : Instant) (jobId : ℕ)
  | reconcileQuery (now : Instant) (staleAfterMinutes : ℕ)
  | reconcile (replicaId : ℕ) (job : Option ℕ) (enqueuedState : Option Bool) (now : Instant)
  | remoteRetentionCleanup (server : Server) (targetId : ℕ) (now : Instant)
  | retentionCleanup (quarantine : Quarantine) (targetId : ℕ) (now : Instant)
  | renameDevice (targetId : ℕ) (deviceName : Option String)
  | editDestination (destinationId : ℕ) (form : DestinationForm)
  | other (change : OtherChange)

section Semantics

variable (nfkd : String → String)

/-- The directory that `replicate_revision` writes to, which is also the path it
returns: SFTP has no recorded path, and the local storage receives no copies. -/
def directory (loaded : LoadedReplica) : Option String :=
  match loaded.destination.protocol with
  | .ftp | .nfs | .smb => some loaded.replica.remotePath
  | .sftp =>
    if loaded.destination.hostKeyTrusted then
      some (revisionDestinationPath nfkd loaded.destination.basePath loaded.target.deviceName
        loaded.target.deviceId loaded.revision.revisionUuid)
    else none
  | .localStorage => none

def endExecution (s : System) (executionId : ℕ) : System :=
  { s with executions := s.executions.filter (fun e => e.pk != executionId) }

/-- The remote deletions that a cleanup confirmed, in their order. -/
def deletions (server : Server) (db : Database) (calls : List ℕ) : List RemoteEvent :=
  calls.filterMap (fun pk => do
    let replica ← db.replicas.get? pk
    let destination ← db.destinations.get? replica.destination
    match server.delete replica with
    | .ok _ => some (.deleted (endpointOf destination) replica.remotePath)
    | .error _ => none)

def renameDevice (db : Database) (targetId : ℕ) (deviceName : Option String) : Database :=
  { db with
    targets := db.targets.update targetId (fun t => { t with deviceName := deviceName })
      (fun _ => rfl) }

def step (s : System) : Step → Option System
  | .createQuery revisionId =>
    some { s with
      intents := s.intents ++ (automaticDestinations s.db).map (Intent.create revisionId) }
  | .backfillQuery destinationId limit =>
    if (s.db.destinations.get? destinationId).any (fun d => d.protocol.replicated) then
      some { s with
        intents := s.intents ++ (backfillRevisions s.db destinationId limit).map
          (fun revisionId => Intent.create revisionId destinationId) }
    else none
  | .create revisionId destinationId now =>
    if s.intents.contains (.create revisionId destinationId) then
      let intents := s.intents.erase (.create revisionId destinationId)
      match getOrCreateReplica s.db revisionId destinationId now with
      | none => some { s with intents := intents }
      | some db => some { s with db := db, intents := intents }
    else none
  | .enqueue replicaId force now jobId =>
    (enqueueRevisionReplica s.db replicaId force now jobId).map (fun r => { s with db := r.1 })
  | .markRunning replicaId now =>
    match markRunning nfkd s.db replicaId now with
    | .error _ => none
    | .ok (db, loaded) =>
      some { s with
        db := db
        executions := s.executions.insert (fun pk => ⟨pk, loaded⟩) (fun _ => rfl) }
  | .upload executionId => do
    let e ← s.executions.get? executionId
    let path ← directory nfkd e.loaded
    some { s with
      events := s.events ++ [.wrote e.loaded.replica.pk e.loaded.destination.pk
        (endpointOf e.loaded.destination) path] }
  | .markSuccess executionId bytesTransferred now => do
    let e ← s.executions.get? executionId
    let path ← directory nfkd e.loaded
    match markSuccess s.db e.loaded.replica.pk path bytesTransferred now with
    | none => some (endExecution s executionId)
    | some db => some (endExecution { s with db := db } executionId)
  | .markFailed executionId error now => do
    let e ← s.executions.get? executionId
    match markFailed s.db e.loaded.replica.pk error now with
    | none => some (endExecution s executionId)
    | some db => some (endExecution { s with db := db } executionId)
  | .stop executionId => some (endExecution s executionId)
  | .dispatchQuery now limit =>
    some { s with intents := s.intents ++ (dueReplicas s.db now limit).map Intent.dispatch }
  | .dispatch replicaId now jobId =>
    if s.intents.contains (.dispatch replicaId) then
      let intents := s.intents.erase (.dispatch replicaId)
      match enqueueRevisionReplica s.db replicaId false now jobId with
      | none => some { s with intents := intents }
      | some (db, _) => some { s with db := db, intents := intents }
    else none
  | .reconcileQuery now staleAfterMinutes =>
    some { s with
      intents := s.intents ++ (staleReplicas s.db now staleAfterMinutes).map
        (fun candidate => Intent.reconcile candidate.1 candidate.2) }
  | .reconcile replicaId job enqueuedState now =>
    if s.intents.contains (.reconcile replicaId job) then
      let intents := s.intents.erase (.reconcile replicaId job)
      -- a row without a job finds none, and a waiting or running job is left alone
      if job.isSome && enqueuedState == some true then some { s with intents := intents }
      else
        match markFailed s.db replicaId staleReplica now with
        | none => some { s with intents := intents }
        | some db => some { s with db := db, intents := intents }
    else none
  | .remoteRetentionCleanup server targetId now =>
    let out := executeRemoteRetentionCleanup server targetId now s.db
    some { s with db := out.db, events := s.events ++ deletions server s.db out.calls }
  | .retentionCleanup quarantine targetId now =>
    some { s with db := (executeRetentionCleanup quarantine targetId now s.db).db }
  | .renameDevice targetId deviceName =>
    some { s with db := renameDevice s.db targetId deviceName }
  | .editDestination destinationId form =>
    (editDestination s.db destinationId form).map (fun db => { s with db := db })
  | .other change => some { s with db := change.run s.db }

end Semantics

/-- An update that leaves what a replica row records about its remote copy, and
does not make the copy available. -/
structure KeepsRecord (f : RevisionReplica → RevisionReplica) : Prop where
  pk : ∀ r, (f r).pk = r.pk
  revision : ∀ r, (f r).revision = r.revision
  destination : ∀ r, (f r).destination = r.destination
  remotePath : ∀ r, (f r).remotePath = r.remotePath
  remoteDeletedAt : ∀ r, (f r).remoteDeletedAt = r.remoteDeletedAt
  remoteAvailable : ∀ r, (f r).remoteAvailable = false

theorem keepsRecord_queuedReplica (now : Instant) (jobId : ℕ) :
    KeepsRecord (queuedReplica now jobId) :=
  ⟨fun _ => rfl, fun _ => rfl, fun _ => rfl, fun _ => rfl, fun _ => rfl, fun _ => rfl⟩

theorem keepsRecord_failedReplica (error : DestinationError) (maxRetries retryDelayMinutes : ℕ)
    (now : Instant) : KeepsRecord (failedReplica error maxRetries retryDelayMinutes now) :=
  ⟨fun _ => rfl, fun _ => rfl, fun _ => rfl, fun _ => rfl, fun _ => rfl, fun _ => rfl⟩

/-- What a step does to the replica rows, the executions and the remote storages. -/
inductive Effect (nfkd : String → String) (s : System) : Step → System → Prop
  | outside {a : Step} {s' : System} (hdb : Unrelated s.db s'.db)
      (hexecutions : ∀ e ∈ s'.executions, e ∈ s.executions) (hevents : s'.events = s.events) :
      Effect nfkd s a s'
  | created {a : Step} {s' : System} {revisionId destinationId : ℕ} {now : Instant}
      (hrevision : (s.db.revisions.get? revisionId).isSome)
      (hfree : ∀ r ∈ s.db.replicas, r.revision = revisionId → r.destination ≠ destinationId)
      (hreplicas : s'.db.replicas =
        s.db.replicas.insert (newReplica revisionId destinationId now) (fun _ => rfl))
      (hrevisions : s'.db.revisions = s.db.revisions)
      (hdestinations : s'.db.destinations = s.db.destinations)
      (hexecutions : s'.executions = s.executions) (hevents : s'.events = s.events) :
      Effect nfkd s a s'
  | rewritten {a : Step} {s' : System} {replicaId : ℕ} {f : RevisionReplica → RevisionReplica}
      (hkeeps : KeepsRecord f)
      (hreplicas : s'.db.replicas = s.db.replicas.update replicaId f hkeeps.pk)
      (hrevisions : s'.db.revisions = s.db.revisions)
      (hendpoints : ∀ k, (s'.db.destinations.get? k).map endpointOf =
        (s.db.destinations.get? k).map endpointOf)
      (hexecutions : ∀ e ∈ s'.executions, e ∈ s.executions) (hevents : s'.events = s.events) :
      Effect nfkd s a s'
  | started {replicaId : ℕ} {now : Instant} {s' : System} {before : LoadedReplica}
      {path : String} (hload : loadReplica s.db replicaId = some before)
      (hlive : before.replica.remoteDeletedAt = none)
      (hpath : pathToRecord nfkd before = some path)
      (hreplicas : s'.db.replicas =
        s.db.replicas.update replicaId (runningReplica path now) (fun _ => rfl))
      (hrevisions : s'.db.revisions = s.db.revisions)
      (hdestinations : s'.db.destinations = s.db.destinations)
      (hexecutions : s'.executions = s.executions.insert (fun pk =>
        ⟨pk, { before with replica := runningReplica path now before.replica }⟩) (fun _ => rfl))
      (hevents : s'.events = s.events) : Effect nfkd s (.markRunning replicaId now) s'
  | wrote {executionId : ℕ} {e : Execution} {path : String} (he : e ∈ s.executions)
      (hpath : directory nfkd e.loaded = some path) :
      Effect nfkd s (.upload executionId) { s with
        events := s.events ++ [.wrote e.loaded.replica.pk e.loaded.destination.pk
          (endpointOf e.loaded.destination) path] }
  | succeeded {executionId bytesTransferred : ℕ} {now : Instant} {s' : System} {e : Execution}
      {path : String} (he : e ∈ s.executions) (hpath : directory nfkd e.loaded = some path)
      (hreplicas : s'.db.replicas = s.db.replicas.update e.loaded.replica.pk
        (succeededReplica path bytesTransferred now) (fun _ => rfl))
      (hrevisions : s'.db.revisions = s.db.revisions)
      (hendpoints : ∀ k, (s'.db.destinations.get? k).map endpointOf =
        (s.db.destinations.get? k).map endpointOf)
      (hexecutions : ∀ e ∈ s'.executions, e ∈ s.executions) (hevents : s'.events = s.events) :
      Effect nfkd s (.markSuccess executionId bytesTransferred now) s'
  | cleaned {server : Server} {targetId : ℕ} {now : Instant} {target : BackupTarget}
      {calls : List ℕ} {gone : ℕ → Bool} (htarget : s.db.targets.get? targetId = some target)
      (hcalls : CallsExpired s.db target now calls) (hconfirmed : Confirmed server s.db calls)
      (hgone : ∀ k, gone k = true → ownsNothing (tombstoned s.db now calls) k = true) :
      Effect nfkd s (.remoteRetentionCleanup server targetId now) { s with
        db := (tombstoned s.db now calls).deleteRevisions gone
        events := s.events ++ deletions server s.db calls }
  | undone {server : Server} {targetId : ℕ} {now : Instant} {calls : List ℕ} :
      Effect nfkd s (.remoteRetentionCleanup server targetId now) { s with
        events := s.events ++ deletions server s.db calls }
  | purged {quarantine : Quarantine} {targetId : ℕ} {now : Instant} {db : Database}
      {gone : ℕ → Bool} (hdb : Unrelated s.db db)
      (hgone : ∀ k, gone k = true → hasRecordedRemoteCopy (s.db.replicasOf k) = false) :
      Effect nfkd s (.retentionCleanup quarantine targetId now)
        { s with db := db.deleteRevisions gone }
  | edited {destinationId : ℕ} {form : DestinationForm} {db : Database}
      (hedit : editDestination s.db destinationId form = some db) :
      Effect nfkd s (.editDestination destinationId form) { s with db := db }

section Effects

variable {nfkd : String → String} {s s' : System} {a : Step} {db db' : Database}

theorem Unrelated.refl (db : Database) : Unrelated db db := ⟨rfl, fun _ => rfl, fun _ => rfl⟩

theorem mem_endExecution {executionId : ℕ} :
    ∀ e ∈ (endExecution s executionId).executions, e ∈ s.executions := by
  intro e he
  exact ((Table.mem_filter _ _ _).mp he).1

/-- Rewriting the service fields of a storage keeps every endpoint. -/
theorem endpoints_saveDestination {k : ℕ} {f : BackupDestination → BackupDestination}
    {hf : ∀ d, (f d).pk = d.pk} (hendpoint : ∀ d, endpointOf (f d) = endpointOf d) (j : ℕ) :
    ((saveDestination db k f hf).destinations.get? j).map endpointOf =
      (db.destinations.get? j).map endpointOf := by
  unfold saveDestination
  rw [Table.get?_update]
  split
  · rw [Option.map_map]
    congr 1
    funext d
    exact hendpoint d
  · rfl

theorem effect_markFailed {replicaId : ℕ} {error : DestinationError} {now : Instant}
    (hdb : markFailed s.db replicaId error now = some db') (hs : s'.db = db')
    (hexecutions : ∀ e ∈ s'.executions, e ∈ s.executions) (hevents : s'.events = s.events) :
    Effect nfkd s a s' := by
  obtain ⟨replica, _, maxRetries, retryDelayMinutes, hdb⟩ := markFailed_spec hdb
  subst hs
  refine .rewritten (keepsRecord_failedReplica error maxRetries retryDelayMinutes now)
    (by rw [hdb]; rfl) (by rw [hdb]; rfl) ?_ hexecutions hevents
  rw [hdb]
  exact endpoints_saveDestination (fun _ => rfl)

theorem effect_enqueue {replicaId jobId : ℕ} {force : Bool} {now : Instant} {job : Option ℕ}
    (hdb : enqueueRevisionReplica s.db replicaId force now jobId = some (db', job))
    (hs : s'.db = db') (hexecutions : ∀ e ∈ s'.executions, e ∈ s.executions)
    (hevents : s'.events = s.events) : Effect nfkd s a s' := by
  subst hs
  rcases enqueue_spec hdb with hsame | ⟨_, _, _, _, _, hdb⟩
  · exact .outside (hsame ▸ Unrelated.refl _) hexecutions hevents
  · exact .rewritten (keepsRecord_queuedReplica now jobId) (by rw [hdb]; rfl)
      (by rw [hdb]; rfl) (fun _ => by rw [hdb]; rfl) hexecutions hevents

/-- Local retention relinks and marks rows, then removes revisions without a
recorded copy. -/
theorem applyRetention_spec {targetId : ℕ} {now : Instant} {revisionIds runIds : List ℕ} :
    ∃ mid gone, Unrelated db mid ∧
      (∀ k, gone k = true → hasRecordedRemoteCopy (db.replicasOf k) = false) ∧
      applyRetention db now targetId revisionIds runIds = mid.deleteRevisions gone := by
  refine ⟨_, _, ?_, ?_, rfl⟩
  · obtain ⟨rows, last, hframe⟩ := @relink_frame (markUnavailable db now revisionIds) targetId
      (newestFirst ConfigRevision.newer (db.targetRevisions targetId))
      (fun pk => revisionIds.contains pk || !db.locallyAvailable pk)
    refine ⟨?_, ?_, ?_⟩
    · dsimp only
      rw [hframe]
      rfl
    · intro k
      dsimp only
      rw [hframe]
      rfl
    · intro k
      dsimp only
      obtain ⟨f, hget, hf⟩ := @get?_relink (markUnavailable db now revisionIds) targetId
        (newestFirst ConfigRevision.newer (db.targetRevisions targetId))
        (fun pk => revisionIds.contains pk || !db.locallyAvailable pk)
        (((newestFirst_perm _).pairwise_iff (fun h => Ne.symm h)).mpr targetRevisions_keys) k
      rw [hget, Option.map_map]
      congr 1
      funext r
      obtain ⟨link, hlink⟩ := hf r
      rw [Function.comp_apply, hlink]
      rfl
  · intro k hk
    have hk := (List.mem_filter.mp (List.contains_iff_mem.mp hk)).2
    simpa using hk

/-- Every enabled step has one of the effects. -/
theorem effect_of_step (h : step nfkd s a = some s') : Effect nfkd s a s' := by
  cases a with
  | createQuery revisionId =>
    cases h
    exact .outside (Unrelated.refl _) (fun _ he => he) rfl
  | backfillQuery destinationId limit =>
    simp only [step] at h
    split at h
    · cases h
      exact .outside (Unrelated.refl _) (fun _ he => he) rfl
    · cases h
  | create revisionId destinationId now =>
    simp only [step] at h
    split at h
    · cases hdb : getOrCreateReplica s.db revisionId destinationId now with
      | none =>
        simp only [hdb, Option.some.injEq] at h
        subst h
        exact .outside (Unrelated.refl _) (fun _ he => he) rfl
      | some db =>
        simp only [hdb, Option.some.injEq] at h
        subst h
        rcases getOrCreateReplica_spec hdb with hsame | ⟨hrevision, hfree, hdb⟩
        · exact .outside (hsame ▸ Unrelated.refl _) (fun _ he => he) rfl
        · subst hdb
          exact .created hrevision hfree rfl rfl rfl rfl rfl
    · cases h
  | enqueue replicaId force now jobId =>
    simp only [step, Option.map_eq_some_iff] at h
    obtain ⟨⟨db, job⟩, hdb, rfl⟩ := h
    exact effect_enqueue hdb rfl (fun _ he => he) rfl
  | markRunning replicaId now =>
    simp only [step] at h
    cases hdb : markRunning nfkd s.db replicaId now with
    | error e => simp only [hdb, reduceCtorEq] at h
    | ok started =>
      obtain ⟨db, loaded⟩ := started
      simp only [hdb, Option.some.injEq] at h
      subst h
      obtain ⟨before, path, hload, hlive, _, hpath, rfl, rfl⟩ := markRunning_spec hdb
      exact .started hload hlive hpath rfl rfl rfl rfl rfl
  | upload executionId =>
    obtain ⟨e, he, h⟩ := Option.bind_eq_some_iff.mp h
    obtain ⟨path, hpath, h⟩ := Option.bind_eq_some_iff.mp h
    rw [Option.some.injEq] at h
    subst h
    exact .wrote ((Table.get?_eq_some_iff _ _ _).mp he).1 hpath
  | markSuccess executionId bytesTransferred now =>
    obtain ⟨e, he, h⟩ := Option.bind_eq_some_iff.mp h
    obtain ⟨path, hpath, h⟩ := Option.bind_eq_some_iff.mp h
    cases hdb : markSuccess s.db e.loaded.replica.pk path bytesTransferred now with
    | none =>
      simp only [hdb, Option.some.injEq] at h
      subst h
      exact .outside (Unrelated.refl _) mem_endExecution rfl
    | some db =>
      simp only [hdb, Option.some.injEq] at h
      subst h
      obtain ⟨replica, _, hdb⟩ := markSuccess_spec hdb
      subst hdb
      exact .succeeded ((Table.get?_eq_some_iff _ _ _).mp he).1 hpath rfl rfl
        (endpoints_saveDestination (fun _ => rfl)) mem_endExecution rfl
  | markFailed executionId error now =>
    obtain ⟨e, he, h⟩ := Option.bind_eq_some_iff.mp h
    cases hdb : markFailed s.db e.loaded.replica.pk error now with
    | none =>
      simp only [hdb, Option.some.injEq] at h
      subst h
      exact .outside (Unrelated.refl _) mem_endExecution rfl
    | some db =>
      simp only [hdb, Option.some.injEq] at h
      subst h
      exact effect_markFailed hdb rfl mem_endExecution rfl
  | stop executionId =>
    cases h
    exact .outside (Unrelated.refl _) mem_endExecution rfl
  | dispatchQuery now limit =>
    cases h
    exact .outside (Unrelated.refl _) (fun _ he => he) rfl
  | dispatch replicaId now jobId =>
    simp only [step] at h
    split at h
    · cases hdb : enqueueRevisionReplica s.db replicaId false now jobId with
      | none =>
        simp only [hdb, Option.some.injEq] at h
        subst h
        exact .outside (Unrelated.refl _) (fun _ he => he) rfl
      | some queued =>
        simp only [hdb, Option.some.injEq] at h
        subst h
        exact effect_enqueue hdb rfl (fun _ he => he) rfl
    · cases h
  | reconcileQuery now staleAfterMinutes =>
    cases h
    exact .outside (Unrelated.refl _) (fun _ he => he) rfl
  | reconcile replicaId job enqueuedState now =>
    simp only [step] at h
    split at h
    · split at h
      · cases h
        exact .outside (Unrelated.refl _) (fun _ he => he) rfl
      · cases hdb : markFailed s.db replicaId staleReplica now with
        | none =>
          simp only [hdb, Option.some.injEq] at h
          subst h
          exact .outside (Unrelated.refl _) (fun _ he => he) rfl
        | some db =>
          simp only [hdb, Option.some.injEq] at h
          subst h
          exact effect_markFailed hdb rfl (fun _ he => he) rfl
    · cases h
  | remoteRetentionCleanup server targetId now =>
    simp only [step, Option.some.injEq] at h
    subst h
    cases htarget : s.db.targets.get? targetId with
    | none =>
      rw [(cleanup_refused (Or.inl htarget)).1]
      exact .undone
    | some target =>
      cases hactive : s.db.hasActiveRun targetId with
      | true =>
        rw [(cleanup_refused (Or.inr hactive)).1]
        exact .undone
      | false =>
        obtain ⟨hcalls, hsame | ⟨⟨gone, hdb, hgone⟩, hconfirmed⟩⟩ :=
          @cleanup_spec s.db targetId target now server htarget hactive
        · rw [hsame]
          exact .undone
        · rw [hdb]
          exact .cleaned htarget hcalls hconfirmed (fun k hk => (hgone k hk).1)
  | retentionCleanup quarantine targetId now =>
    simp only [step, Option.some.injEq] at h
    subst h
    rcases executeRetentionCleanup_db quarantine targetId now s.db with
      hsame | ⟨_, revisionIds, runIds, hdb⟩
    · rw [hsame]
      exact .outside (Unrelated.refl _) (fun _ he => he) rfl
    · obtain ⟨mid, gone, hmid, hgone, happly⟩ :=
        @applyRetention_spec s.db targetId now revisionIds runIds
      rw [hdb, happly]
      exact .purged hmid hgone
  | renameDevice targetId deviceName =>
    cases h
    exact .outside ⟨rfl, fun _ => rfl, fun _ => rfl⟩ (fun _ he => he) rfl
  | editDestination destinationId form =>
    simp only [step, Option.map_eq_some_iff] at h
    obtain ⟨db, hedit, rfl⟩ := h
    exact .edited hedit
  | other change =>
    cases h
    exact .outside (change.unrelated s.db) (fun _ he => he) rfl

end Effects

/-- No replica, no execution and no remote file yet; the rest is arbitrary. -/
structure Fresh (s : System) : Prop where
  replicas : s.db.replicas.rows = []
  executions : s.executions.rows = []
  events : s.events = []

/-- The cleanup's plan expires no copy that an execution still works on. -/
def CleanupSpares (s : System) (targetId : ℕ) (now : Instant) : Prop :=
  ∀ target, s.db.targets.get? targetId = some target → ∀ e ∈ s.executions,
    ∀ r ∈ s.db.replicas, r.pk = e.loaded.replica.pk → ¬ CopyExpires s.db target now r

/-- One device with two revisions in local storage and an FTP storage that keeps
one copy and does not retry. -/
def exampleSystem : System where
  db := {
    targets := chainDatabase.targets
    destinations := ⟨[{ exampleDestination with maxRetries := 0 }], 2, by decide, by decide⟩
    backupPolicies := Table.empty
    retentionPolicies := Table.empty
    remotePolicies := chainDatabase.remotePolicies
    revisions := ⟨[
      { exampleRevision 1 0 none with revisionUuid := "0f8fad5b-d9cb-469f-a165-70867728950e" },
      { exampleRevision 2 (days 1) (some 1) with
        revisionUuid := "7c9e6679-7425-40de-944b-e07fc1f90ae7" }], 3, by decide, by decide⟩
    artifacts := ⟨[
      ⟨1, 1, "running", "text", "1/running.cfg", 5, "hash-1", "hash-1", true, true, none⟩,
      ⟨2, 2, "running", "text", "2/running.cfg", 5, "hash-2", "hash-2", true, true, none⟩], 3,
      by decide, by decide⟩
    replicas := Table.empty
    runs := Table.empty }
  intents := []
  executions := Table.empty
  events := []

theorem fresh_exampleSystem : Fresh exampleSystem := ⟨rfl, rfl, rfl⟩

/-- A copy of the revision is created and queued under a job. -/
def queueCopy (revisionId replicaId jobId : ℕ) (now : Instant) : List Step :=
  [.createQuery revisionId, .create revisionId 1 now, .enqueue replicaId false now jobId]

end ConfigBackup.ReplicaSystem
