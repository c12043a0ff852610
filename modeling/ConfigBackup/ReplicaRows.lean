import ConfigBackup.ReplicaSystem

/-!
The replica rows and the executions of a replication system, and what changes
of the database keep about them: a row belongs to an existing revision, it is
the only one of its revision and storage, and its recorded path names the
revision. A tombstoned row is sealed when no execution works on its copy.
-/

namespace ConfigBackup.ReplicaRows

open Calendar DestinationPaths Models Replication ReplicaSystem Tables

/-- UUIDs by revision key, also of revisions that were deleted. -/
structure WellNamed (uuids : ℕ → Option String) : Prop where
  text : ∀ k uuid, uuids k = some uuid → isUuidText uuid = true
  inj : ∀ k k' uuid, uuids k = some uuid → uuids k' = some uuid → k = k'

/-- The path is one that replication builds for the revision. -/
inductive Names (nfkd : String → String) (uuids : ℕ → Option String) (k : ℕ) : String → Prop
  | new {basePath : String} {deviceName : Option String} {deviceId : ℕ} {createdAt : Instant}
      {path : String} (h : ftpRevisionDestinationPath nfkd basePath deviceName deviceId createdAt
        (some k) none = some path) : Names nfkd uuids k path
  | historical {basePath : String} {deviceName : Option String} {deviceId : ℕ} {uuid : String}
      (h : uuids k = some uuid) :
      Names nfkd uuids k (revisionDestinationPath nfkd basePath deviceName deviceId uuid)

section Names

variable {nfkd : String → String} {uuids : ℕ → Option String} {k k' : ℕ} {path : String}

theorem Names.inj (hwell : WellNamed uuids) (h : Names nfkd uuids k path)
    (h' : Names nfkd uuids k' path) : k = k' := by
  cases h with
  | new h =>
    cases h' with
    | new h' => exact ftpRevisionDestinationPath_inj h h'
    | historical h' => exact absurd h (ftpRevisionDestinationPath_ne (hwell.text _ _ h'))
  | @historical basePath deviceName deviceId uuid h =>
    generalize hpath : revisionDestinationPath nfkd basePath deviceName deviceId uuid = path at h'
    cases h' with
    | new h' =>
      rw [← hpath] at h'
      exact absurd h' (ftpRevisionDestinationPath_ne (hwell.text _ _ h))
    | historical h' =>
      have huuid := revisionDestinationPath_inj (hwell.text _ _ h) (hwell.text _ _ h') hpath
      subst huuid
      exact hwell.inj k k' _ h h'

theorem Names.ne_empty (h : Names nfkd uuids k path) : path ≠ "" := by
  cases h with
  | new h =>
    unfold ftpRevisionDestinationPath at h
    dsimp only at h
    split at h
    · cases h
    · rw [← Option.some.inj h]
      exact absolutePath_ne_empty _
  | historical _ => exact absolutePath_ne_empty _

end Names

/-- A replica row after a step, beside the row before it. -/
structure RowStep (nfkd : String → String) (uuids : ℕ → Option String)
    (r r' : RevisionReplica) : Prop where
  revision : r'.revision = r.revision
  destination : r'.destination = r.destination
  unavailable : r'.remoteDeletedAt ≠ none → r'.remoteAvailable = false
  named : r'.remotePath ≠ "" → Names nfkd uuids r.revision r'.remotePath

/-- Replica rows belong to revisions, one for each storage; a tombstoned copy is
unavailable and a recorded path names the row's revision. -/
structure Rows (nfkd : String → String) (uuids : ℕ → Option String) (db : Database) : Prop where
  foreign : ∀ r ∈ db.replicas, (db.revisions.get? r.revision).isSome
  unique : ∀ r ∈ db.replicas, ∀ r' ∈ db.replicas, r.revision = r'.revision →
    r.destination = r'.destination → r = r'
  uuid : ∀ k v, db.revisions.get? k = some v → uuids k = some v.revisionUuid
  step : ∀ r ∈ db.replicas, RowStep nfkd uuids r r

/-- Every execution writes to a directory of its revision, and its row has no
tombstone for as long as the revision exists. -/
structure Workers (nfkd : String → String) (uuids : ℕ → Option String) (db : Database)
    (executions : Table Execution Execution.pk) : Prop where
  named : ∀ e ∈ executions, ∀ path, directory nfkd e.loaded = some path →
    Names nfkd uuids e.loaded.revision.pk path
  below : ∀ e ∈ executions, e.loaded.replica.pk < db.replicas.next
  row : ∀ e ∈ executions, ∀ r ∈ db.replicas, r.pk = e.loaded.replica.pk →
    r.revision = e.loaded.revision.pk ∧ r.destination = e.loaded.destination.pk ∧
      r.remoteDeletedAt = none
  owned : ∀ e ∈ executions, (db.revisions.get? e.loaded.revision.pk).isSome →
    ∃ r ∈ db.replicas, r.pk = e.loaded.replica.pk

/-- The row of a tombstoned copy is as it was, or gone with its revision, and no
execution works on its revision and storage. -/
structure Sealed (r₀ : RevisionReplica) (db : Database)
    (executions : Table Execution Execution.pk) : Prop where
  row : ∀ r ∈ db.replicas, r.pk = r₀.pk → r.revision = r₀.revision ∧
    r.destination = r₀.destination ∧ r.remoteDeletedAt = r₀.remoteDeletedAt
  below : r₀.pk < db.replicas.next
  owned : (db.revisions.get? r₀.revision).isSome → ∃ r ∈ db.replicas, r.pk = r₀.pk
  idle : ∀ e ∈ executions, e.loaded.revision.pk = r₀.revision →
    e.loaded.destination.pk ≠ r₀.destination

section Changes

variable {nfkd : String → String} {uuids : ℕ → Option String} {db db' : Database}
  {executions executions' : Table Execution Execution.pk} {r₀ : RevisionReplica}

theorem isSome_of_map {v v' : Option ConfigRevision}
    (h : v'.map ConfigRevision.revisionUuid = v.map ConfigRevision.revisionUuid) :
    v'.isSome = v.isSome := by
  have hsome := congrArg Option.isSome h
  rwa [Option.isSome_map, Option.isSome_map] at hsome

theorem Rows.unrelated (h : Rows nfkd uuids db) (hdb : Unrelated db db') :
    Rows nfkd uuids db' where
  foreign r hr := by
    rw [isSome_of_map (hdb.uuids r.revision)]
    exact h.foreign r (hdb.replicas ▸ hr)
  unique r hr r' hr' := h.unique r (hdb.replicas ▸ hr) r' (hdb.replicas ▸ hr')
  uuid k v hv := by
    have huuid := hdb.uuids k
    rw [hv, Option.map_some] at huuid
    obtain ⟨w, hw, hwv⟩ := Option.map_eq_some_iff.mp huuid.symm
    rw [h.uuid k w hw, hwv]
  step r hr := h.step r (hdb.replicas ▸ hr)

theorem Workers.unrelated (h : Workers nfkd uuids db executions) (hdb : Unrelated db db') :
    Workers nfkd uuids db' executions where
  named := h.named
  below e he := by
    rw [hdb.replicas]
    exact h.below e he
  row e he r hr := h.row e he r (hdb.replicas ▸ hr)
  owned e he hrevision := by
    rw [isSome_of_map (hdb.uuids _)] at hrevision
    rw [hdb.replicas]
    exact h.owned e he hrevision

theorem Sealed.unrelated (h : Sealed r₀ db executions) (hdb : Unrelated db db') :
    Sealed r₀ db' executions where
  row r hr := h.row r (hdb.replicas ▸ hr)
  below := by
    rw [hdb.replicas]
    exact h.below
  owned hrevision := by
    rw [isSome_of_map (hdb.uuids _)] at hrevision
    rw [hdb.replicas]
    exact h.owned hrevision
  idle := h.idle

theorem Rows.map (h : Rows nfkd uuids db) {g : RevisionReplica → RevisionReplica}
    {hg : ∀ r, (g r).pk = r.pk} (hreplicas : db'.replicas = db.replicas.map g hg)
    (hrevisions : db'.revisions = db.revisions)
    (hstep : ∀ r ∈ db.replicas, RowStep nfkd uuids r (g r)) : Rows nfkd uuids db' where
  foreign r hr := by
    rw [hreplicas] at hr
    obtain ⟨q, hq, rfl⟩ := (Table.mem_map _ _ _ _).mp hr
    rw [(hstep q hq).revision, hrevisions]
    exact h.foreign q hq
  unique r hr r' hr' hrevision hdestination := by
    rw [hreplicas] at hr hr'
    obtain ⟨q, hq, rfl⟩ := (Table.mem_map _ _ _ _).mp hr
    obtain ⟨q', hq', rfl⟩ := (Table.mem_map _ _ _ _).mp hr'
    rw [(hstep q hq).revision, (hstep q' hq').revision] at hrevision
    rw [(hstep q hq).destination, (hstep q' hq').destination] at hdestination
    rw [h.unique q hq q' hq' hrevision hdestination]
  uuid := by
    rw [hrevisions]
    exact h.uuid
  step r hr := by
    rw [hreplicas] at hr
    obtain ⟨q, hq, rfl⟩ := (Table.mem_map _ _ _ _).mp hr
    have hq := hstep q hq
    exact ⟨rfl, rfl, hq.unavailable, hq.revision ▸ hq.named⟩

theorem Workers.map (h : Workers nfkd uuids db executions) {g : RevisionReplica → RevisionReplica}
    {hg : ∀ r, (g r).pk = r.pk} (hreplicas : db'.replicas = db.replicas.map g hg)
    (hrevisions : db'.revisions = db.revisions)
    (hstep : ∀ r ∈ db.replicas, RowStep nfkd uuids r (g r))
    (hlive : ∀ e ∈ executions, ∀ r ∈ db.replicas, r.pk = e.loaded.replica.pk →
      r.remoteDeletedAt = none → (g r).remoteDeletedAt = none) :
    Workers nfkd uuids db' executions where
  named := h.named
  below e he := by
    rw [hreplicas]
    exact h.below e he
  row e he r hr hkey := by
    rw [hreplicas] at hr
    obtain ⟨q, hq, rfl⟩ := (Table.mem_map _ _ _ _).mp hr
    rw [hg] at hkey
    obtain ⟨hrevision, hdestination, hdeleted⟩ := h.row e he q hq hkey
    exact ⟨(hstep q hq).revision.trans hrevision, (hstep q hq).destination.trans hdestination,
      hlive e he q hq hkey hdeleted⟩
  owned e he hrevision := by
    rw [hrevisions] at hrevision
    obtain ⟨r, hr, hkey⟩ := h.owned e he hrevision
    rw [hreplicas]
    exact ⟨g r, (Table.mem_map _ _ _ _).mpr ⟨r, hr, rfl⟩, (hg r).trans hkey⟩

theorem Sealed.map (h : Sealed r₀ db executions) {g : RevisionReplica → RevisionReplica}
    {hg : ∀ r, (g r).pk = r.pk} (hreplicas : db'.replicas = db.replicas.map g hg)
    (hrevisions : db'.revisions = db.revisions)
    (hstep : ∀ r ∈ db.replicas, RowStep nfkd uuids r (g r))
    (hdeleted : ∀ r ∈ db.replicas, r.pk = r₀.pk → (g r).remoteDeletedAt = r.remoteDeletedAt) :
    Sealed r₀ db' executions where
  row r hr hkey := by
    rw [hreplicas] at hr
    obtain ⟨q, hq, rfl⟩ := (Table.mem_map _ _ _ _).mp hr
    rw [hg] at hkey
    obtain ⟨hrevision, hdestination, htombstone⟩ := h.row q hq hkey
    exact ⟨(hstep q hq).revision.trans hrevision, (hstep q hq).destination.trans hdestination,
      (hdeleted q hq hkey).trans htombstone⟩
  below := by
    rw [hreplicas]
    exact h.below
  owned hrevision := by
    rw [hrevisions] at hrevision
    obtain ⟨r, hr, hkey⟩ := h.owned hrevision
    rw [hreplicas]
    exact ⟨g r, (Table.mem_map _ _ _ _).mpr ⟨r, hr, rfl⟩, (hg r).trans hkey⟩
  idle := h.idle

section Created

variable {revisionId destinationId : ℕ} {now : Instant}

theorem Rows.created (h : Rows nfkd uuids db) (hrevision : (db.revisions.get? revisionId).isSome)
    (hfree : ∀ r ∈ db.replicas, r.revision = revisionId → r.destination ≠ destinationId)
    (hreplicas : db'.replicas =
      db.replicas.insert (newReplica revisionId destinationId now) (fun _ => rfl))
    (hrevisions : db'.revisions = db.revisions) : Rows nfkd uuids db' where
  foreign r hr := by
    rw [hreplicas] at hr
    rw [hrevisions]
    rcases (Table.mem_insert _ _ _ _).mp hr with hr | rfl
    · exact h.foreign r hr
    · exact hrevision
  unique r hr r' hr' hr_revision hr_destination := by
    rw [hreplicas] at hr hr'
    rcases (Table.mem_insert _ _ _ _).mp hr with hr | rfl
    · rcases (Table.mem_insert _ _ _ _).mp hr' with hr' | rfl
      · exact h.unique r hr r' hr' hr_revision hr_destination
      · exact absurd hr_destination (hfree r hr hr_revision)
    · rcases (Table.mem_insert _ _ _ _).mp hr' with hr' | rfl
      · exact absurd hr_destination.symm (hfree r' hr' hr_revision.symm)
      · rfl
  uuid := by
    rw [hrevisions]
    exact h.uuid
  step r hr := by
    rw [hreplicas] at hr
    rcases (Table.mem_insert _ _ _ _).mp hr with hr | rfl
    · exact h.step r hr
    · exact ⟨rfl, rfl, fun _ => rfl, fun hne => absurd rfl hne⟩

theorem Workers.created (h : Workers nfkd uuids db executions)
    (hreplicas : db'.replicas =
      db.replicas.insert (newReplica revisionId destinationId now) (fun _ => rfl))
    (hrevisions : db'.revisions = db.revisions) : Workers nfkd uuids db' executions where
  named := h.named
  below e he := by
    rw [hreplicas]
    exact Nat.lt_succ_of_lt (h.below e he)
  row e he r hr hkey := by
    rw [hreplicas] at hr
    rcases (Table.mem_insert _ _ _ _).mp hr with hr | rfl
    · exact h.row e he r hr hkey
    · exact absurd hkey.symm (Nat.ne_of_lt (h.below e he))
  owned e he hrevision := by
    rw [hrevisions] at hrevision
    obtain ⟨r, hr, hkey⟩ := h.owned e he hrevision
    rw [hreplicas]
    exact ⟨r, (Table.mem_insert _ _ _ _).mpr (Or.inl hr), hkey⟩

theorem Sealed.created (h : Sealed r₀ db executions)
    (hreplicas : db'.replicas =
      db.replicas.insert (newReplica revisionId destinationId now) (fun _ => rfl))
    (hrevisions : db'.revisions = db.revisions) : Sealed r₀ db' executions where
  row r hr hkey := by
    rw [hreplicas] at hr
    rcases (Table.mem_insert _ _ _ _).mp hr with hr | rfl
    · exact h.row r hr hkey
    · exact absurd hkey.symm (Nat.ne_of_lt h.below)
  below := by
    rw [hreplicas]
    exact Nat.lt_succ_of_lt h.below
  owned hrevision := by
    rw [hrevisions] at hrevision
    obtain ⟨r, hr, hkey⟩ := h.owned hrevision
    rw [hreplicas]
    exact ⟨r, (Table.mem_insert _ _ _ _).mpr (Or.inl hr), hkey⟩
  idle := h.idle

end Created

section Deleted

variable {gone : ℕ → Bool}

/-- The rows of a revision that is left are left. -/
theorem not_gone_of_isSome {k : ℕ} (h : ((db.deleteRevisions gone).revisions.get? k).isSome) :
    gone k = false ∧ (db.revisions.get? k).isSome := by
  rw [Database.get?_deleteRevisions, Option.isSome_map] at h
  obtain ⟨v, hv⟩ := Option.isSome_iff_exists.mp h
  obtain ⟨hget, hkept⟩ := Option.filter_eq_some_iff.mp hv
  have hkey := ((Table.get?_eq_some_iff _ _ _).mp hget).2
  exact ⟨by simpa [hkey] using hkept, Option.isSome_of_eq_some hget⟩

theorem Rows.deleted (h : Rows nfkd uuids db) : Rows nfkd uuids (db.deleteRevisions gone) where
  foreign r hr := by
    obtain ⟨hr, hkept⟩ := Database.mem_replicas_deleteRevisions.mp hr
    obtain ⟨v, hv⟩ := Option.isSome_iff_exists.mp (h.foreign r hr)
    have hkey := ((Table.get?_eq_some_iff _ _ _).mp hv).2
    rw [Database.get?_deleteRevisions, hv, Option.filter_some]
    simp [hkey, hkept]
  unique r hr r' hr' := h.unique r (Database.mem_replicas_deleteRevisions.mp hr).1 r'
    (Database.mem_replicas_deleteRevisions.mp hr').1
  uuid k v hv := by
    rw [Database.get?_deleteRevisions] at hv
    obtain ⟨w, hw, rfl⟩ := Option.map_eq_some_iff.mp hv
    exact h.uuid k w (Option.filter_eq_some_iff.mp hw).1
  step r hr := h.step r (Database.mem_replicas_deleteRevisions.mp hr).1

theorem Workers.deleted (h : Workers nfkd uuids db executions) :
    Workers nfkd uuids (db.deleteRevisions gone) executions where
  named := h.named
  below := h.below
  row e he r hr := h.row e he r (Database.mem_replicas_deleteRevisions.mp hr).1
  owned e he hrevision := by
    obtain ⟨hkept, hrevision⟩ := not_gone_of_isSome hrevision
    obtain ⟨r, hr, hkey⟩ := h.owned e he hrevision
    refine ⟨r, Database.mem_replicas_deleteRevisions.mpr ⟨hr, ?_⟩, hkey⟩
    rw [(h.row e he r hr hkey).1, hkept]

theorem Sealed.deleted (h : Sealed r₀ db executions) :
    Sealed r₀ (db.deleteRevisions gone) executions where
  row r hr := h.row r (Database.mem_replicas_deleteRevisions.mp hr).1
  below := h.below
  owned hrevision := by
    obtain ⟨hkept, hrevision⟩ := not_gone_of_isSome hrevision
    obtain ⟨r, hr, hkey⟩ := h.owned hrevision
    refine ⟨r, Database.mem_replicas_deleteRevisions.mpr ⟨hr, ?_⟩, hkey⟩
    rw [(h.row r hr hkey).1, hkept]
  idle := h.idle

end Deleted

theorem Workers.subset (h : Workers nfkd uuids db executions)
    (hsub : ∀ e ∈ executions', e ∈ executions) : Workers nfkd uuids db executions' where
  named e he := h.named e (hsub e he)
  below e he := h.below e (hsub e he)
  row e he := h.row e (hsub e he)
  owned e he := h.owned e (hsub e he)

theorem Sealed.subset (h : Sealed r₀ db executions)
    (hsub : ∀ e ∈ executions', e ∈ executions) : Sealed r₀ db executions' where
  row := h.row
  below := h.below
  owned := h.owned
  idle e he := h.idle e (hsub e he)

end Changes

end ConfigBackup.ReplicaRows
