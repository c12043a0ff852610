import ConfigBackup.ReplicaSystem

/-!
Every remote copy stays reachable along guarded runs: a directory that holds
files of replication is the recorded path of a live replica row, on a storage
whose endpoint is the one the files were written to. The row of an execution
records that directory from its `_mark_running` on, so that the execution may
stop after any of its writes.
-/

namespace ConfigBackup.ReachableCopies

open Calendar DestinationEdits GuardedRuns LocalRetention Models RemoteCleanup RemoteRetention
  Replication ReplicaSystem Tables

/-- Replication created a file in the directory, which was not deleted since. -/
def Present (events : List RemoteEvent) (endpoint : Endpoint) (path : String) : Prop :=
  ∃ before after replica destination,
    events = before ++ .wrote replica destination endpoint path :: after ∧
      .deleted endpoint path ∉ after

/-- The row is a live one that records the directory under its current endpoint. -/
def Records (db : Database) (r : RevisionReplica) (endpoint : Endpoint) (path : String) : Prop :=
  r ∈ db.replicas ∧ r.remoteDeletedAt = none ∧ r.remotePath = path ∧
    (db.destinations.get? r.destination).map endpointOf = some endpoint

def Reachable (db : Database) (endpoint : Endpoint) (path : String) : Prop :=
  ∃ r, Records db r endpoint path

/-- Executions start on replicated storages only, and no cleanup expires a copy
that an execution works on. -/
def guard (s : System) : Step → Prop
  | .markRunning replicaId _ => ∀ loaded, loadReplica s.db replicaId = some loaded →
      loaded.destination.protocol.replicated = true
  | .remoteRetentionCleanup _ targetId now => CleanupSpares s targetId now
  | _ => True

section Events

variable {events : List RemoteEvent} {endpoint : Endpoint} {path : String}

/-- A written directory is the new one or was there before. -/
theorem present_wrote {replica destination : ℕ} {endpoint' : Endpoint} {path' : String}
    (h : Present (events ++ [.wrote replica destination endpoint' path']) endpoint path) :
    (endpoint' = endpoint ∧ path' = path) ∨ Present events endpoint path := by
  obtain ⟨before, after, replica', destination', heq, hdeleted⟩ := h
  rcases List.eq_nil_or_concat after with hnil | ⟨rest, last, hlast⟩
  · subst hnil
    have htail := (List.append_inj' heq rfl).2
    simp only [List.cons.injEq, RemoteEvent.wrote.injEq, and_true] at htail
    exact Or.inl ⟨htail.2.2.1, htail.2.2.2⟩
  · subst hlast
    rw [List.concat_eq_append, ← List.cons_append, ← List.append_assoc] at heq
    have hfront := (List.append_inj' heq rfl).1
    refine Or.inr ⟨before, rest, replica', destination', hfront, ?_⟩
    intro hmem
    exact hdeleted (by simp [hmem])

/-- Deletions leave only directories that were there and are not deleted. -/
theorem present_deletions {server : Server} {db : Database} {calls : List ℕ}
    (h : Present (events ++ deletions server db calls) endpoint path) :
    Present events endpoint path ∧ .deleted endpoint path ∉ deletions server db calls := by
  obtain ⟨before, after, replica, destination, heq, hdeleted⟩ := h
  have hnone : ∀ e ∈ deletions server db calls, ∃ endpoint' path', e = .deleted endpoint' path' := by
    intro e he
    obtain ⟨pk, _, hpk⟩ := List.mem_filterMap.mp he
    obtain ⟨r, _, hpk⟩ := Option.bind_eq_some_iff.mp hpk
    obtain ⟨d, _, hpk⟩ := Option.bind_eq_some_iff.mp hpk
    split at hpk
    · exact ⟨_, _, (Option.some.inj hpk).symm⟩
    · cases hpk
  -- the write is among the older events, so the deletions end what follows it
  rcases List.append_eq_append_iff.mp heq with ⟨mid, hbefore, htail⟩ | ⟨mid, hevents, htail⟩
  · have hmem : RemoteEvent.wrote replica destination endpoint path ∈ deletions server db calls := by
      rw [htail]
      simp
    obtain ⟨_, _, hdel⟩ := hnone _ hmem
    cases hdel
  · cases mid with
    | nil =>
      have hmem : RemoteEvent.wrote replica destination endpoint path ∈
          deletions server db calls := by
        rw [List.nil_append] at htail
        rw [← htail]
        simp
      obtain ⟨_, _, hdel⟩ := hnone _ hmem
      cases hdel
    | cons first rest =>
      simp only [List.cons_append, List.cons.injEq] at htail
      obtain ⟨hfirst, hrest⟩ := htail
      rw [hrest, List.mem_append, not_or] at hdeleted
      exact ⟨⟨before, rest, replica, destination, by rw [hevents, hfirst], hdeleted.1⟩,
        hdeleted.2⟩

end Events

/-- A recorded directory on a replicated storage keeps its row and its endpoint. -/
def KeepsCopies (db db' : Database) (except : ℕ → Prop) : Prop :=
  ∀ r endpoint path, path ≠ "" → endpoint.protocol.replicated = true → ¬ except r.pk →
    Records db r endpoint path → ∃ r', r'.pk = r.pk ∧ Records db' r' endpoint path

/-- The row of an execution records its directory, and every written directory
is reachable. -/
structure Inv (nfkd : String → String) (s : System) : Prop where
  tracked : ∀ e ∈ s.executions, ∃ r path, r.pk = e.loaded.replica.pk ∧ path ≠ "" ∧
    directory nfkd e.loaded = some path ∧
    (endpointOf e.loaded.destination).protocol.replicated = true ∧
    Records s.db r (endpointOf e.loaded.destination) path
  reachable : ∀ endpoint path, Present s.events endpoint path → path ≠ "" ∧
    endpoint.protocol.replicated = true ∧ Reachable s.db endpoint path

section Changes

variable {db db' : Database} {except : ℕ → Prop}

theorem keepsCopies_unrelated (h : Unrelated db db') : KeepsCopies db db' except := by
  intro r endpoint path _ _ _ ⟨hr, hlive, hpath, hendpoint⟩
  exact ⟨r, rfl, h.replicas ▸ hr, hlive, hpath, (h.endpoints r.destination).trans hendpoint⟩

theorem keepsCopies_insert {mk : ℕ → RevisionReplica} {hmk : ∀ k, (mk k).pk = k}
    (hreplicas : db'.replicas = db.replicas.insert mk hmk)
    (hdestinations : db'.destinations = db.destinations) : KeepsCopies db db' except := by
  intro r endpoint path _ _ _ ⟨hr, hlive, hpath, hendpoint⟩
  refine ⟨r, rfl, ?_, hlive, hpath, by rw [hdestinations, hendpoint]⟩
  rw [hreplicas]
  exact (Table.mem_insert _ _ _ _).mpr (Or.inl hr)

/-- An update keeps copies when it keeps the record of its own row. -/
theorem keepsCopies_update {replicaId : ℕ} {f : RevisionReplica → RevisionReplica}
    {hf : ∀ r, (f r).pk = r.pk} (hreplicas : db'.replicas = db.replicas.update replicaId f hf)
    (hendpoints : ∀ k, (db'.destinations.get? k).map endpointOf =
      (db.destinations.get? k).map endpointOf)
    (hrow : ∀ r ∈ db.replicas, r.pk = replicaId → r.remoteDeletedAt = none → r.remotePath ≠ "" →
      (f r).destination = r.destination ∧ (f r).remoteDeletedAt = none ∧
        (f r).remotePath = r.remotePath) : KeepsCopies db db' except := by
  intro r endpoint path hne _ _ ⟨hr, hlive, hpath, hendpoint⟩
  by_cases hkey : r.pk = replicaId
  · obtain ⟨hdestination, hlive', hpath'⟩ := hrow r hr hkey hlive (hpath ▸ hne)
    refine ⟨f r, hf r, ?_, hlive', hpath'.trans hpath, ?_⟩
    · rw [hreplicas]
      exact (Table.mem_update _ _ _ _ _).mpr (Or.inr ⟨r, hr, hkey, rfl⟩)
    · rw [hendpoints, hdestination, hendpoint]
  · refine ⟨r, rfl, ?_, hlive, hpath, by rw [hendpoints, hendpoint]⟩
    rw [hreplicas]
    exact (Table.mem_update _ _ _ _ _).mpr (Or.inl ⟨hr, hkey⟩)

theorem keepsCopies_deleteRevisions {gone : ℕ → Bool}
    (hgone : ∀ r ∈ db.replicas, r.remoteDeletedAt = none → r.remotePath ≠ "" → ¬ except r.pk →
      gone r.revision = false) : KeepsCopies db (db.deleteRevisions gone) except := by
  intro r endpoint path hne _ hexcept ⟨hr, hlive, hpath, hendpoint⟩
  refine ⟨r, rfl, ?_, hlive, hpath, hendpoint⟩
  exact Database.mem_replicas_deleteRevisions.mpr ⟨hr, hgone r hr hlive (hpath ▸ hne) hexcept⟩

theorem KeepsCopies.trans {db'' : Database} (h : KeepsCopies db db' except)
    (h' : KeepsCopies db' db'' except) : KeepsCopies db db'' except := by
  intro r endpoint path hne hreplicated hexcept hr
  obtain ⟨r', hkey', hr'⟩ := h r endpoint path hne hreplicated hexcept hr
  obtain ⟨r'', hkey'', hr''⟩ := h' r' endpoint path hne hreplicated (hkey' ▸ hexcept) hr'
  exact ⟨r'', hkey''.trans hkey', hr''⟩

/-- A cleanup keeps every copy that it does not tombstone. -/
theorem keepsCopies_tombstoned {now : Instant} {calls : List ℕ} :
    KeepsCopies db (tombstoned db now calls) (fun k => k ∈ calls) := by
  intro r endpoint path _ _ hcalled ⟨hr, hlive, hpath, hendpoint⟩
  refine ⟨r, rfl, ?_, hlive, hpath, hendpoint⟩
  unfold tombstoned
  rw [Table.mem_map]
  exact ⟨r, hr, by rw [if_neg hcalled]⟩

theorem keepsCopies_edit {destinationId : ℕ} {form : DestinationForm}
    (h : editDestination db destinationId form = some db') : KeepsCopies db db' except := by
  intro r endpoint path hne hreplicated _ ⟨hr, hlive, hpath, hendpoint⟩
  unfold editDestination at h
  cases horiginal : db.destinations.get? destinationId with
  | none => simp [horiginal] at h
  | some original =>
    cases hclean : clean db destinationId form with
    | error e => simp [horiginal, hclean] at h
    | ok _ =>
      simp only [horiginal, hclean, Option.some.injEq] at h
      subst h
      refine ⟨r, rfl, hr, hlive, hpath, ?_⟩
      rw [Table.get?_update]
      split
      · rename_i hown
        rw [hown, horiginal, Option.map_some, Option.some.injEq] at hendpoint
        have hremote : original.protocol ≠ .localStorage := by
          intro hlocal
          have hprotocol : (endpointOf original).protocol = .localStorage := hlocal
          rw [← hendpoint, hprotocol] at hreplicated
          cases hreplicated
        have hcopies : hasRecordedCopies db destinationId = true := by
          unfold hasRecordedCopies
          rw [List.any_eq_true]
          exact ⟨r, hr, by simp [hown, hlive, hpath, hne]⟩
        rw [hown, horiginal, Option.map_some, Option.map_some, endpointOf_edited,
          clean_keeps_endpoint horiginal hremote hcopies hclean, hendpoint]
      · exact hendpoint

end Changes

section Steps

variable {nfkd : String → String} {s s' : System} {a : Step}

/-- A change that keeps copies keeps the invariant for the executions that go on. -/
theorem Inv.keep (h : Inv nfkd s) (hkeeps : KeepsCopies s.db s'.db (fun _ => False))
    (hexecutions : ∀ e ∈ s'.executions, e ∈ s.executions) (hevents : s'.events = s.events) :
    Inv nfkd s' where
  tracked e he := by
    obtain ⟨r, path, hkey, hne, hpath, hreplicated, hr⟩ := h.tracked e (hexecutions e he)
    obtain ⟨r', hkey', hr'⟩ := hkeeps r _ path hne hreplicated (fun hf => hf) hr
    exact ⟨r', path, hkey'.trans hkey, hne, hpath, hreplicated, hr'⟩
  reachable endpoint path hpresent := by
    rw [hevents] at hpresent
    obtain ⟨hne, hreplicated, r, hr⟩ := h.reachable endpoint path hpresent
    obtain ⟨r', _, hr'⟩ := hkeeps r endpoint path hne hreplicated (fun hf => hf) hr
    exact ⟨hne, hreplicated, r', hr'⟩

/-- A directory for a replicated storage is the recorded path. -/
theorem directory_replicated {loaded : LoadedReplica}
    (h : loaded.destination.protocol.replicated = true) :
    directory nfkd loaded = some loaded.replica.remotePath := by
  unfold directory
  cases hprotocol : loaded.destination.protocol <;> simp [hprotocol,
    DestinationProtocol.replicated] at h ⊢

/-- A worker records its directory before it writes. -/
theorem inv_started {replicaId : ℕ} {now : Instant} {before : LoadedReplica} {path : String}
    (h : Inv nfkd s) (hload : loadReplica s.db replicaId = some before)
    (hlive : before.replica.remoteDeletedAt = none)
    (hpath : pathToRecord nfkd before = some path)
    (hreplicated : before.destination.protocol.replicated = true)
    (hreplicas : s'.db.replicas =
      s.db.replicas.update replicaId (runningReplica path now) (fun _ => rfl))
    (hdestinations : s'.db.destinations = s.db.destinations)
    (hexecutions : s'.executions = s.executions.insert (fun pk =>
      ⟨pk, { before with replica := runningReplica path now before.replica }⟩) (fun _ => rfl))
    (hevents : s'.events = s.events) : Inv nfkd s' := by
  obtain ⟨hreplica, hdestination, _⟩ := loadReplica_spec hload
  obtain ⟨hmem, hkey⟩ := (Table.get?_eq_some_iff _ _ _).mp hreplica
  have hkeeps : KeepsCopies s.db s'.db (fun _ => False) := by
    apply keepsCopies_update hreplicas (fun k => by rw [hdestinations])
    intro r hr hrkey hrlive hrpath
    have hsame := s.db.replicas.eq_of_key_eq hr hmem (hrkey.trans hkey.symm)
    refine ⟨rfl, hrlive, ?_⟩
    -- a path that is already recorded is used again
    subst hsame
    simp only [pathToRecord, bne_iff_ne, ne_eq, hrpath, not_false_eq_true, if_true,
      Option.some.injEq] at hpath
    exact hpath.symm
  have hold : Inv nfkd { s' with executions := s.executions } :=
    h.keep hkeeps (fun _ he => he) hevents
  refine ⟨?_, hold.reachable⟩
  intro e he
  rw [hexecutions] at he
  rcases (Table.mem_insert _ _ _ _).mp he with he | he
  · exact hold.tracked e he
  · subst he
    refine ⟨runningReplica path now before.replica, path, rfl, pathToRecord_ne_empty hpath,
      directory_replicated hreplicated, hreplicated, ?_, hlive, rfl, ?_⟩
    · rw [hreplicas]
      exact (Table.mem_update _ _ _ _ _).mpr (Or.inr ⟨before.replica, hmem, hkey, rfl⟩)
    · rw [hdestinations]
      show (s.db.destinations.get? before.replica.destination).map endpointOf = _
      rw [hdestination]
      rfl

/-- A confirmed deletion is among the events of its cleanup. -/
theorem mem_deletions {server : Server} {db : Database} {calls : List ℕ} {r : RevisionReplica}
    {endpoint : Endpoint} {path : String} (hconfirmed : Confirmed server db calls)
    (hcalled : r.pk ∈ calls) (hr : Records db r endpoint path) :
    .deleted endpoint path ∈ deletions server db calls := by
  obtain ⟨hmem, _, hpath, hendpoint⟩ := hr
  obtain ⟨row, hrow, hkey, result, hresult⟩ := hconfirmed r.pk hcalled
  have hsame := db.replicas.eq_of_key_eq hrow hmem hkey
  subst hsame
  obtain ⟨d, hd, hde⟩ := Option.map_eq_some_iff.mp hendpoint
  refine List.mem_filterMap.mpr ⟨row.pk, hcalled, ?_⟩
  rw [db.replicas.get?_of_mem hmem, Option.bind_eq_bind, Option.bind_some, hd,
    Option.bind_eq_bind, Option.bind_some, hresult, hde, hpath]

/-- A committed cleanup deletes the directories whose rows it tombstones. -/
theorem inv_cleaned {server : Server} {targetId : ℕ} {now : Instant} {target : BackupTarget}
    {calls : List ℕ} {gone : ℕ → Bool} (h : Inv nfkd s)
    (htarget : s.db.targets.get? targetId = some target)
    (hspares : CleanupSpares s targetId now) (hcalls : CallsExpired s.db target now calls)
    (hconfirmed : Confirmed server s.db calls)
    (hgone : ∀ k, gone k = true → ownsNothing (tombstoned s.db now calls) k = true) :
    Inv nfkd { s with
      db := (tombstoned s.db now calls).deleteRevisions gone
      events := s.events ++ deletions server s.db calls } := by
  have hkeeps : KeepsCopies s.db ((tombstoned s.db now calls).deleteRevisions gone)
      (fun k => k ∈ calls) := by
    apply keepsCopies_tombstoned.trans
    apply keepsCopies_deleteRevisions
    intro r hr hlive hpath _
    by_contra hgoing
    have howns := hgone r.revision (by simpa using hgoing)
    simp only [ownsNothing, Bool.and_eq_true, Bool.not_eq_true'] at howns
    have hrow : r ∈ (tombstoned s.db now calls).replicasOf r.revision :=
      List.mem_filter.mpr ⟨hr, by simp⟩
    have hrecorded := List.any_eq_false.mp howns.1.2 r hrow
    simp [hlive, hpath] at hrecorded
  constructor
  · intro e he
    obtain ⟨r, path, hkey, hne, hpath, hreplicated, hr⟩ := h.tracked e he
    have hspared : r.pk ∉ calls := by
      intro hcalled
      obtain ⟨copy, hcopy, hexpires⟩ := hcalls r.pk hcalled
      have hsame := s.db.replicas.eq_of_key_eq (mem_lockedReplicas.mp hexpires.1).1 hr.1 hcopy
      exact hspares target htarget e he r hr.1 hkey (hsame ▸ hexpires)
    obtain ⟨r', hkey', hr'⟩ := hkeeps r _ path hne hreplicated hspared hr
    exact ⟨r', path, hkey'.trans hkey, hne, hpath, hreplicated, hr'⟩
  · intro endpoint path hpresent
    obtain ⟨hpresent, hdeleted⟩ := present_deletions hpresent
    obtain ⟨hne, hreplicated, r, hr⟩ := h.reachable endpoint path hpresent
    have hspared : r.pk ∉ calls := fun hcalled => hdeleted (mem_deletions hconfirmed hcalled hr)
    obtain ⟨r', _, hr'⟩ := hkeeps r endpoint path hne hreplicated hspared hr
    exact ⟨hne, hreplicated, r', hr'⟩

theorem inv_wrote {e : Execution} {path : String} (h : Inv nfkd s) (he : e ∈ s.executions)
    (hpath : directory nfkd e.loaded = some path) :
    Inv nfkd { s with
      events := s.events ++ [.wrote e.loaded.replica.pk e.loaded.destination.pk
        (endpointOf e.loaded.destination) path] } := by
  refine ⟨h.tracked, ?_⟩
  intro endpoint path' hpresent
  rcases present_wrote hpresent with ⟨rfl, rfl⟩ | hpresent
  · obtain ⟨r, recorded, _, hne, hrecorded, hreplicated, hr⟩ := h.tracked e he
    rw [hpath, Option.some.injEq] at hrecorded
    subst hrecorded
    exact ⟨hne, hreplicated, r, hr⟩
  · exact h.reachable endpoint path' hpresent

theorem inv_step (h : Inv nfkd s) (hguard : guard s a) (hstep : step nfkd s a = some s') :
    Inv nfkd s' := by
  cases effect_of_step hstep with
  | outside hdb hexecutions hevents =>
    exact h.keep (keepsCopies_unrelated hdb) hexecutions hevents
  | created _ _ hreplicas _ hdestinations hexecutions hevents =>
    exact h.keep (keepsCopies_insert hreplicas hdestinations) (fun _ he => hexecutions ▸ he) hevents
  | rewritten hkeeps hreplicas _ hendpoints hexecutions hevents =>
    apply h.keep (keepsCopies_update hreplicas hendpoints ?_) hexecutions hevents
    intro r _ _ hlive _
    exact ⟨hkeeps.destination r, (hkeeps.remoteDeletedAt r).trans hlive, hkeeps.remotePath r⟩
  | started hload hlive hpath hreplicas _ hdestinations hexecutions hevents =>
    exact inv_started h hload hlive hpath (hguard _ hload) hreplicas hdestinations hexecutions
      hevents
  | wrote he hpath => exact inv_wrote h he hpath
  | @succeeded _ _ _ _ e path he hpath hreplicas _ hendpoints hexecutions hevents =>
    apply h.keep (keepsCopies_update hreplicas hendpoints ?_) hexecutions hevents
    intro r hr hkey _ _
    obtain ⟨own, recorded, hown, _, hrecorded, _, hmem, _, hownPath, _⟩ := h.tracked e he
    have hsame := s.db.replicas.eq_of_key_eq hr hmem (hkey.trans hown.symm)
    rw [hpath, Option.some.injEq] at hrecorded
    subst hsame
    exact ⟨rfl, rfl, hrecorded.trans hownPath.symm⟩
  | cleaned htarget hcalls hconfirmed hgone =>
    exact inv_cleaned h htarget hguard hcalls hconfirmed hgone
  | undone =>
    refine ⟨h.tracked, ?_⟩
    intro endpoint path hpresent
    exact h.reachable endpoint path (present_deletions hpresent).1
  | purged hdb hgone =>
    refine h.keep ((keepsCopies_unrelated hdb).trans (keepsCopies_deleteRevisions ?_))
      (fun _ he => he) rfl
    intro r hr hlive hpath _
    by_contra hgoing
    have hunrecorded := hgone r.revision (by simpa using hgoing)
    have hrow : r ∈ s.db.replicasOf r.revision :=
      List.mem_filter.mpr ⟨hdb.replicas ▸ hr, by simp⟩
    have hrecorded := List.any_eq_false.mp hunrecorded r hrow
    simp [hlive, hpath] at hrecorded
  | edited hedit => exact h.keep (keepsCopies_edit hedit) (fun _ he => he) rfl

end Steps

/-- From a fresh system, every guarded run keeps every remote copy reachable. -/
theorem copies_stay_reachable (nfkd : String → String) (start : System) (hfresh : Fresh start)
    (steps : List Step) (hguarded : Guarded (step nfkd) guard start steps) (final : System)
    (hrun : exec (step nfkd) start steps = some final) (endpoint : Endpoint) (path : String)
    (hpresent : Present final.events endpoint path) : Reachable final.db endpoint path := by
  have hstart : Inv nfkd start := by
    constructor
    · intro e he
      have hnone : e ∈ start.executions.rows := he
      rw [hfresh.executions] at hnone
      cases hnone
    · intro endpoint path ⟨before, after, replica, destination, heq, _⟩
      rw [hfresh.events] at heq
      simp at heq
  have hend : Inv nfkd final := invariant_of_step (Inv nfkd)
    (fun _ _ _ h hguard hstep => inv_step h hguard hstep) hstart hguarded hrun
  exact (hend.reachable endpoint path hpresent).2.2

/-- The copy of revision 1 is written by a worker that stops without a mark. -/
def interruptedUpload : List Step :=
  queueCopy 1 1 11 0 ++ [.markRunning 1 0, .upload 1, .stop 1]

theorem guarded_interruptedUpload :
    Guarded (step id) guard exampleSystem interruptedUpload := by
  refine ⟨trivial, fun s hs => ⟨trivial, fun s' hs' => ⟨trivial, fun t ht => ⟨?_, ?_⟩⟩⟩⟩
  · intro loaded hloaded
    have hexec : exec (step id) exampleSystem (queueCopy 1 1 11 0) = some t := by
      simp only [queueCopy, exec, hs, hs', ht, Option.bind_some]
    have hftp : (exec (step id) exampleSystem (queueCopy 1 1 11 0)).all (fun t =>
        (loadReplica t.db 1).all (fun l => l.destination.protocol.replicated)) = true := by
      decide +kernel
    rw [hexec, Option.all_some, hloaded, Option.all_some] at hftp
    exact hftp
  · exact fun _ _ => ⟨trivial, fun _ _ => ⟨trivial, fun _ _ => trivial⟩⟩

/-- Where that worker wrote. -/
def interruptedPath : String := "/backups/devices/router/backups/1970-01-01_00-00-00-r1"

def ftpEndpoint : Endpoint := endpointOf NewestCopies.exampleDestination

theorem copies_stay_reachable_interrupted :
    ∃ final, exec (step id) exampleSystem interruptedUpload = some final ∧
      Present final.events ftpEndpoint interruptedPath ∧
      Reachable final.db ftpEndpoint interruptedPath := by
  have hsome : ((exec (step id) exampleSystem interruptedUpload).map (fun s => s.events)) =
      some [.wrote 1 1 ftpEndpoint interruptedPath] := by decide +kernel
  obtain ⟨final, hfinal, hevents⟩ := Option.map_eq_some_iff.mp hsome
  have hpresent : Present final.events ftpEndpoint interruptedPath :=
    ⟨[], [], 1, 1, hevents, List.not_mem_nil⟩
  exact ⟨final, hfinal, hpresent, copies_stay_reachable id exampleSystem fresh_exampleSystem
    interruptedUpload guarded_interruptedUpload final hfinal _ _ hpresent⟩

/-- The same storage, moved to an SFTP server. -/
def sftpForm : DestinationForm where
  isDefault := false
  enabled := true
  autoReplicate := false
  integrityAuditEnabled := false
  allowInsecureFtp := false
  endpoint := ⟨.sftp, "sftp.example", some 22, "backups", "", some 1⟩
  credentialIsPassword := true
  connectTimeout := some 15
  maxRetries := some 3
  retryDelayMinutes := some 15
  maxArtifactSize := some 1000000
  localRetentionPolicy := none
  remoteRetentionPolicy := some 1
  enforceRetentionPolicy := false
  hostKeyType := ""
  hostKeyPublic := ""
  hostKeyFingerprintSha256 := ""

/-- An administrator approves the host key of the storage. -/
def approveHostKey (destinationId : ℕ) : OtherChange where
  run db := saveDestination db destinationId (fun d => { d with hostKeyTrusted := true })
    (fun _ => rfl)
  unrelated db := ⟨rfl, endpoints_saveDestination (fun _ => rfl), fun _ => rfl⟩

/-- The storage is moved to SFTP while the first copy waits in the queue; its
worker then writes below `revisions`, which no row records. -/
def movedToSftp : List Step :=
  queueCopy 1 1 11 0 ++ [.editDestination 1 sftpForm, .other (approveHostKey 1), .markRunning 1 0,
    .upload 1, .stop 1]

theorem copy_unreachable :
    ¬ ∀ (nfkd : String → String) (start : System), Fresh start → ∀ (steps : List Step)
      (final : System), exec (step nfkd) start steps = some final →
        ∀ endpoint path, Present final.events endpoint path → Reachable final.db endpoint path := by
  intro h
  have hsome : ((exec (step id) exampleSystem movedToSftp).map (fun s =>
      (s.events, s.db.replicas.rows.map (fun r => r.remotePath)))) =
      some ([.wrote 1 1 sftpForm.endpoint
        "/backups/devices/router/revisions/0f8fad5b-d9cb-469f-a165-70867728950e"],
        [interruptedPath]) := by decide +kernel
  obtain ⟨final, hfinal, hfacts⟩ := Option.map_eq_some_iff.mp hsome
  obtain ⟨hevents, hpaths⟩ := Prod.mk.inj hfacts
  obtain ⟨r, hr, _, hpath, _⟩ := h id exampleSystem fresh_exampleSystem movedToSftp final hfinal _ _
    ⟨[], [], 1, 1, hevents, List.not_mem_nil⟩
  have hrecorded : r.remotePath ∈ final.db.replicas.rows.map (fun r => r.remotePath) :=
    List.mem_map_of_mem hr
  rw [hpaths, hpath] at hrecorded
  revert hrecorded
  decide

end ConfigBackup.ReachableCopies
