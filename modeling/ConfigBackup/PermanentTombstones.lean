import ConfigBackup.ReplicaRows

/-!
Tombstones are permanent along guarded runs. A live execution owns a replica
row without a tombstone, since the guard keeps the cleanup away from it, so no
success mark clears one. No later write reaches the deleted directory either:
a path names one revision, and the tombstoned row is the only one of its
revision and storage.
-/

namespace ConfigBackup.PermanentTombstones

open Calendar DestinationEdits DestinationPaths GuardedRuns Models RemoteCleanup RemoteRetention
  ReplicaRows Replication ReplicaSystem Tables

/-- No cleanup expires a copy that an execution works on. -/
def guard (s : System) : Step → Prop
  | .remoteRetentionCleanup _ targetId now => CleanupSpares s targetId now
  | _ => True

/-- The unique UUID column. -/
structure UniqueUuids (db : Database) : Prop where
  text : ∀ v ∈ db.revisions, isUuidText v.revisionUuid = true
  inj : ∀ v ∈ db.revisions, ∀ w ∈ db.revisions, v.revisionUuid = w.revisionUuid → v.pk = w.pk

section Steps

variable {nfkd : String → String} {uuids : ℕ → Option String} {s s' : System}
  {r₀ : RevisionReplica}

/-- What every step of a guarded run preserves. -/
structure Inv (nfkd : String → String) (uuids : ℕ → Option String) (s : System) : Prop where
  rows : Rows nfkd uuids s.db
  workers : Workers nfkd uuids s.db s.executions

theorem rowStep_keepsRecord {f : RevisionReplica → RevisionReplica} (hkeeps : KeepsRecord f)
    {r : RevisionReplica} (h : RowStep nfkd uuids r r) : RowStep nfkd uuids r (f r) where
  revision := hkeeps.revision r
  destination := hkeeps.destination r
  unavailable _ := hkeeps.remoteAvailable r
  named hne := by
    rw [hkeeps.remotePath] at hne ⊢
    exact h.named hne

/-- A row update is a row step when it is one on the row it selects. -/
theorem rowStep_update {db : Database} {k : ℕ} {f : RevisionReplica → RevisionReplica}
    (h : ∀ r ∈ db.replicas, RowStep nfkd uuids r r)
    (hf : ∀ r ∈ db.replicas, r.pk = k → RowStep nfkd uuids r (f r)) :
    ∀ r ∈ db.replicas, RowStep nfkd uuids r (if r.pk = k then f r else r) := by
  intro r hr
  by_cases hkey : r.pk = k
  · rw [if_pos hkey]
    exact hf r hr hkey
  · rw [if_neg hkey]
    exact h r hr

theorem rowStep_rewritten {db : Database} {k : ℕ} {f : RevisionReplica → RevisionReplica}
    (hkeeps : KeepsRecord f) (h : Rows nfkd uuids db) :
    ∀ r ∈ db.replicas, RowStep nfkd uuids r (if r.pk = k then f r else r) :=
  rowStep_update h.step (fun r hr _ => rowStep_keepsRecord hkeeps (h.step r hr))

theorem remoteDeletedAt_update {k : ℕ} {f : RevisionReplica → RevisionReplica}
    {r : RevisionReplica} {deletedAt : Option Instant}
    (h : r.pk = k → (f r).remoteDeletedAt = deletedAt) (hr : r.remoteDeletedAt = deletedAt) :
    (if r.pk = k then f r else r).remoteDeletedAt = deletedAt := by
  by_cases hkey : r.pk = k
  · rw [if_pos hkey]
    exact h hkey
  · rw [if_neg hkey]
    exact hr

section Started

variable {replicaId : ℕ} {now : Instant} {before : LoadedReplica} {path : String}

theorem names_pathToRecord (h : Inv nfkd uuids s) (hload : loadReplica s.db replicaId = some before)
    (hpath : pathToRecord nfkd before = some path) :
    Names nfkd uuids before.replica.revision path := by
  obtain ⟨hreplica, _, hrevision⟩ := loadReplica_spec hload
  have hmem := ((Table.get?_eq_some_iff _ _ _).mp hreplica).1
  unfold pathToRecord at hpath
  split at hpath
  · rename_i hrecorded
    rw [← Option.some.inj hpath]
    exact (h.rows.step _ hmem).named (by simpa using hrecorded)
  · have hkey := ((Table.get?_eq_some_iff _ _ _).mp hrevision).2
    rw [hkey] at hpath
    exact .new hpath

theorem rowStep_started (h : Inv nfkd uuids s) (hload : loadReplica s.db replicaId = some before)
    (hpath : pathToRecord nfkd before = some path) : ∀ r ∈ s.db.replicas,
      RowStep nfkd uuids r (if r.pk = replicaId then runningReplica path now r else r) := by
  apply rowStep_update h.rows.step
  intro r hr hkey
  obtain ⟨hmem, hown⟩ := (Table.get?_eq_some_iff _ _ _).mp (loadReplica_spec hload).1
  have hsame := s.db.replicas.eq_of_key_eq hr hmem (hkey.trans hown.symm)
  refine ⟨rfl, rfl, fun _ => rfl, fun _ => ?_⟩
  rw [hsame]
  exact names_pathToRecord h hload hpath

variable (hload : loadReplica s.db replicaId = some before)
  (hlive : before.replica.remoteDeletedAt = none) (hpath : pathToRecord nfkd before = some path)
  (hreplicas : s'.db.replicas =
    s.db.replicas.update replicaId (runningReplica path now) (fun _ => rfl))
  (hrevisions : s'.db.revisions = s.db.revisions)
  (hexecutions : s'.executions = s.executions.insert (fun pk =>
    ⟨pk, { before with replica := runningReplica path now before.replica }⟩) (fun _ => rfl))

include hload hlive hpath hreplicas hrevisions hexecutions

theorem inv_started (h : Inv nfkd uuids s) : Inv nfkd uuids s' := by
  have hstep := @rowStep_started _ _ _ _ now _ _ h hload hpath
  obtain ⟨hreplica, hdestination, hrevision⟩ := loadReplica_spec hload
  obtain ⟨hmem, hkey⟩ := (Table.get?_eq_some_iff _ _ _).mp hreplica
  obtain ⟨_, hdestinationKey⟩ := (Table.get?_eq_some_iff _ _ _).mp hdestination
  obtain ⟨_, hrevisionKey⟩ := (Table.get?_eq_some_iff _ _ _).mp hrevision
  have hrows : Rows nfkd uuids s'.db := h.rows.map hreplicas hrevisions hstep
  have hworkers : Workers nfkd uuids s'.db s.executions :=
    h.workers.map hreplicas hrevisions hstep (fun _ _ r _ _ hdeleted =>
      remoteDeletedAt_update (fun _ => hdeleted) hdeleted)
  have hown : runningReplica path now before.replica ∈ s'.db.replicas := by
    rw [hreplicas]
    exact (Table.mem_update _ _ _ _ _).mpr (Or.inr ⟨before.replica, hmem, hkey, rfl⟩)
  refine ⟨hrows, ⟨?_, ?_, ?_, ?_⟩⟩
  all_goals
    intro e he
    rw [hexecutions] at he
    rcases (Table.mem_insert _ _ _ _).mp he with he | he
  · exact hworkers.named e he
  · subst he
    intro path' hpath'
    have hnames := names_pathToRecord h hload hpath
    rw [← hrevisionKey] at hnames
    unfold directory at hpath'
    cases hprotocol : before.destination.protocol <;> simp only [hprotocol] at hpath'
    case localStorage => cases hpath'
    case sftp =>
      split at hpath'
      · rw [← Option.some.inj hpath']
        exact .historical (h.rows.uuid _ _ (hrevisionKey ▸ hrevision))
      · cases hpath'
    all_goals
      rw [← Option.some.inj hpath']
      exact hnames
  · exact hworkers.below e he
  · subst he
    exact s'.db.replicas.below _ hown
  · exact hworkers.row e he
  · subst he
    intro r hr hrkey
    rw [s'.db.replicas.eq_of_key_eq hr hown hrkey]
    exact ⟨hrevisionKey.symm, hdestinationKey.symm, hlive⟩
  · exact hworkers.owned e he
  · subst he
    intro _
    exact ⟨_, hown, rfl⟩

theorem sealed_started (h : Inv nfkd uuids s) (hdeleted : r₀.remoteDeletedAt ≠ none)
    (hsealed : Sealed r₀ s.db s.executions) : Sealed r₀ s'.db s'.executions := by
  have hstep := @rowStep_started _ _ _ _ now _ _ h hload hpath
  obtain ⟨hreplica, hdestination, hrevision⟩ := loadReplica_spec hload
  obtain ⟨hmem, _⟩ := (Table.get?_eq_some_iff _ _ _).mp hreplica
  obtain ⟨_, hdestinationKey⟩ := (Table.get?_eq_some_iff _ _ _).mp hdestination
  obtain ⟨_, hrevisionKey⟩ := (Table.get?_eq_some_iff _ _ _).mp hrevision
  have hmapped : Sealed r₀ s'.db s.executions :=
    hsealed.map hreplicas hrevisions hstep (fun r _ _ => remoteDeletedAt_update (fun _ => rfl) rfl)
  refine ⟨hmapped.row, hmapped.below, hmapped.owned, ?_⟩
  intro e he hr heq
  rw [hexecutions] at he
  rcases (Table.mem_insert _ _ _ _).mp he with he | he
  · exact hmapped.idle e he hr heq
  · subst he
    dsimp only at hr heq
    -- the row that starts would be the tombstoned one
    have hexists : (s.db.revisions.get? r₀.revision).isSome := by
      rw [← hr, hrevisionKey, hrevision]
      rfl
    obtain ⟨r, hrmem, hrkey⟩ := hsealed.owned hexists
    obtain ⟨hrr, hrd, hrt⟩ := hsealed.row r hrmem hrkey
    have hsame := h.rows.unique r hrmem before.replica hmem
      (by rw [hrr, ← hr, hrevisionKey]) (by rw [hrd, ← heq, hdestinationKey])
    rw [hsame, hlive] at hrt
    exact hdeleted hrt.symm

end Started

section Succeeded

variable {bytesTransferred : ℕ} {now : Instant} {e : Execution} {path : String}
  (he : e ∈ s.executions) (hpath : directory nfkd e.loaded = some path)
  (hreplicas : s'.db.replicas = s.db.replicas.update e.loaded.replica.pk
    (succeededReplica path bytesTransferred now) (fun _ => rfl))
  (hrevisions : s'.db.revisions = s.db.revisions)
  (hexecutions : ∀ e ∈ s'.executions, e ∈ s.executions)

include he hpath hreplicas hrevisions hexecutions

theorem rowStep_succeeded (h : Inv nfkd uuids s) : ∀ r ∈ s.db.replicas, RowStep nfkd uuids r
    (if r.pk = e.loaded.replica.pk then succeededReplica path bytesTransferred now r else r) := by
  apply rowStep_update h.rows.step
  intro r hr hkey
  refine ⟨rfl, rfl, fun hne => absurd rfl hne, fun _ => ?_⟩
  rw [(h.workers.row e he r hr hkey).1]
  exact h.workers.named e he path hpath

theorem inv_succeeded (h : Inv nfkd uuids s) : Inv nfkd uuids s' := by
  have hstep := rowStep_succeeded he hpath hreplicas hrevisions hexecutions h
  refine ⟨h.rows.map hreplicas hrevisions hstep, Workers.subset ?_ hexecutions⟩
  exact h.workers.map hreplicas hrevisions hstep (fun _ _ _ _ _ hlive =>
    remoteDeletedAt_update (fun _ => rfl) hlive)

/-- The success mark goes to a row without a tombstone. -/
theorem sealed_succeeded (h : Inv nfkd uuids s) (hdeleted : r₀.remoteDeletedAt ≠ none)
    (hsealed : Sealed r₀ s.db s.executions) : Sealed r₀ s'.db s'.executions := by
  have hstep := rowStep_succeeded he hpath hreplicas hrevisions hexecutions h
  refine Sealed.subset (hsealed.map hreplicas hrevisions hstep ?_) hexecutions
  intro r hr hkey
  apply remoteDeletedAt_update ?_ rfl
  intro hown
  have hlive := (h.workers.row e he r hr hown).2.2
  rw [(hsealed.row r hr hkey).2.2] at hlive
  exact absurd hlive hdeleted

end Succeeded

section Cleaned

variable {targetId : ℕ} {now : Instant} {target : BackupTarget} {calls : List ℕ} {gone : ℕ → Bool}

/-- Only locked copies are called, which have no tombstone. -/
theorem live_of_called (hcalls : CallsExpired s.db target now calls) {r : RevisionReplica}
    (hr : r ∈ s.db.replicas) (hcalled : r.pk ∈ calls) :
    r.remoteDeletedAt = none ∧ CopyExpires s.db target now r := by
  obtain ⟨copy, hkey, hexpires⟩ := hcalls r.pk hcalled
  obtain ⟨hmem, _, hlive, _⟩ := mem_lockedReplicas.mp hexpires.1
  have hsame := s.db.replicas.eq_of_key_eq hmem hr hkey
  exact hsame ▸ ⟨hlive, hexpires⟩

theorem tombstoned_replicas {db : Database} : (tombstoned db now calls).replicas =
    db.replicas.map (fun r => if r.pk ∈ calls then tombstone now r else r)
      (fun r => by split <;> rfl) := rfl

theorem rowStep_tombstoned (h : Inv nfkd uuids s) : ∀ r ∈ s.db.replicas,
    RowStep nfkd uuids r (if r.pk ∈ calls then tombstone now r else r) := by
  intro r hr
  by_cases hcalled : r.pk ∈ calls
  · rw [if_pos hcalled]
    exact ⟨rfl, rfl, fun _ => rfl, (h.rows.step r hr).named⟩
  · rw [if_neg hcalled]
    exact h.rows.step r hr

theorem inv_cleaned (h : Inv nfkd uuids s) (htarget : s.db.targets.get? targetId = some target)
    (hspares : CleanupSpares s targetId now) (hcalls : CallsExpired s.db target now calls) :
    Inv nfkd uuids { s with db := (tombstoned s.db now calls).deleteRevisions gone } := by
  have hstep := @rowStep_tombstoned _ _ _ now calls h
  refine ⟨Rows.deleted (h.rows.map tombstoned_replicas rfl hstep), Workers.deleted ?_⟩
  refine h.workers.map tombstoned_replicas rfl hstep ?_
  intro e he r hr hkey hlive
  rw [if_neg]
  · exact hlive
  · intro hcalled
    exact hspares target htarget e he r hr hkey (live_of_called hcalls hr hcalled).2

theorem sealed_cleaned (h : Inv nfkd uuids s) (hdeleted : r₀.remoteDeletedAt ≠ none)
    (hsealed : Sealed r₀ s.db s.executions) (hcalls : CallsExpired s.db target now calls) :
    Sealed r₀ ((tombstoned s.db now calls).deleteRevisions gone) s.executions := by
  have hstep := @rowStep_tombstoned _ _ _ now calls h
  refine Sealed.deleted (hsealed.map tombstoned_replicas rfl hstep ?_)
  intro r hr hkey
  rw [if_neg]
  intro hcalled
  have hlive := (live_of_called hcalls hr hcalled).1
  rw [(hsealed.row r hr hkey).2.2] at hlive
  exact hdeleted hlive

end Cleaned

theorem inv_step {a : Step} (h : Inv nfkd uuids s) (hguard : guard s a)
    (hstep : step nfkd s a = some s') : Inv nfkd uuids s' := by
  cases effect_of_step hstep with
  | outside hdb hexecutions _ =>
    exact ⟨h.rows.unrelated hdb, (h.workers.unrelated hdb).subset hexecutions⟩
  | created hrevision hfree hreplicas hrevisions _ hexecutions _ =>
    exact ⟨h.rows.created hrevision hfree hreplicas hrevisions,
      hexecutions ▸ h.workers.created hreplicas hrevisions⟩
  | @rewritten _ _ replicaId _ hkeeps hreplicas hrevisions _ hexecutions _ =>
    have hrow := @rowStep_rewritten _ _ _ replicaId _ hkeeps h.rows
    refine ⟨h.rows.map hreplicas hrevisions hrow, Workers.subset ?_ hexecutions⟩
    exact h.workers.map hreplicas hrevisions hrow (fun _ _ r _ _ hlive =>
      remoteDeletedAt_update (fun _ => (hkeeps.remoteDeletedAt r).trans hlive) hlive)
  | started hload hlive hpath hreplicas hrevisions _ hexecutions _ =>
    exact inv_started hload hlive hpath hreplicas hrevisions hexecutions h
  | wrote _ _ => exact ⟨h.rows, h.workers⟩
  | succeeded he hpath hreplicas hrevisions _ hexecutions _ =>
    exact inv_succeeded he hpath hreplicas hrevisions hexecutions h
  | @cleaned _ _ _ _ _ gone htarget hcalls _ _ =>
    have hinv := @inv_cleaned _ _ _ _ _ _ _ gone h htarget hguard hcalls
    exact ⟨hinv.rows, hinv.workers⟩
  | undone => exact ⟨h.rows, h.workers⟩
  | purged hdb _ =>
    exact ⟨(h.rows.unrelated hdb).deleted, (h.workers.unrelated hdb).deleted⟩
  | edited hedit =>
    unfold editDestination at hedit
    split at hedit
    · rw [← Option.some.inj hedit]
      exact ⟨⟨h.rows.foreign, h.rows.unique, h.rows.uuid, h.rows.step⟩,
        ⟨h.workers.named, h.workers.below, h.workers.row, h.workers.owned⟩⟩
    · cases hedit

theorem sealed_step {a : Step} (h : Inv nfkd uuids s) (hdeleted : r₀.remoteDeletedAt ≠ none)
    (hsealed : Sealed r₀ s.db s.executions) (hstep : step nfkd s a = some s') :
    Sealed r₀ s'.db s'.executions := by
  cases effect_of_step hstep with
  | outside hdb hexecutions _ => exact (hsealed.unrelated hdb).subset hexecutions
  | created hrevision hfree hreplicas hrevisions _ hexecutions _ =>
    exact hexecutions ▸ hsealed.created hreplicas hrevisions
  | @rewritten _ _ replicaId _ hkeeps hreplicas hrevisions _ hexecutions _ =>
    have hrow := @rowStep_rewritten _ _ _ replicaId _ hkeeps h.rows
    refine Sealed.subset (hsealed.map hreplicas hrevisions hrow ?_) hexecutions
    exact fun r _ _ => remoteDeletedAt_update (fun _ => hkeeps.remoteDeletedAt r) rfl
  | started hload hlive hpath hreplicas hrevisions _ hexecutions _ =>
    exact sealed_started hload hlive hpath hreplicas hrevisions hexecutions h hdeleted hsealed
  | wrote _ _ => exact hsealed
  | succeeded he hpath hreplicas hrevisions _ hexecutions _ =>
    exact sealed_succeeded he hpath hreplicas hrevisions hexecutions h hdeleted hsealed
  | cleaned _ hcalls _ _ => exact sealed_cleaned h hdeleted hsealed hcalls
  | undone => exact hsealed
  | purged hdb _ => exact (hsealed.unrelated hdb).deleted
  | edited hedit =>
    unfold editDestination at hedit
    split at hedit
    · rw [← Option.some.inj hedit]
      exact ⟨hsealed.row, hsealed.below, hsealed.owned, hsealed.idle⟩
    · cases hedit

/-- A file written to the directory of the replica on its storage. -/
def WritesTo (r : RevisionReplica) : RemoteEvent → Prop
  | .wrote _ destination _ path => destination = r.destination ∧ path = r.remotePath
  | .deleted _ _ => False

/-- What a step adds to the events misses the directory of a tombstoned copy. -/
theorem events_step (hwell : WellNamed uuids) {a : Step} (h : Inv nfkd uuids s)
    (hsealed : Sealed r₀ s.db s.executions)
    (hnamed : r₀.remotePath ≠ "" → Names nfkd uuids r₀.revision r₀.remotePath)
    (hstep : step nfkd s a = some s') :
    ∃ new, s'.events = s.events ++ new ∧ ∀ event ∈ new, ¬ WritesTo r₀ event := by
  have hquiet : s'.events = s.events →
      ∃ new, s'.events = s.events ++ new ∧ ∀ event ∈ new, ¬ WritesTo r₀ event :=
    fun heq => ⟨[], by rw [heq, List.append_nil], fun _ hmem => absurd hmem List.not_mem_nil⟩
  have hdeletions : ∀ {server calls}, ∀ event ∈ deletions server s.db calls,
      ¬ WritesTo r₀ event := by
    intro server calls event hmem
    obtain ⟨pk, _, hpk⟩ := List.mem_filterMap.mp hmem
    obtain ⟨r, _, hpk⟩ := Option.bind_eq_some_iff.mp hpk
    obtain ⟨d, _, hpk⟩ := Option.bind_eq_some_iff.mp hpk
    split at hpk
    · rw [← Option.some.inj hpk]
      exact fun hf => hf
    · cases hpk
  cases effect_of_step hstep with
  | outside _ _ hevents => exact hquiet hevents
  | created _ _ _ _ _ _ hevents => exact hquiet hevents
  | rewritten _ _ _ _ _ hevents => exact hquiet hevents
  | started _ _ _ _ _ _ _ hevents => exact hquiet hevents
  | @wrote _ e path he hpath =>
    refine ⟨_, rfl, ?_⟩
    intro event hmem hwrites
    rw [List.mem_singleton.mp hmem] at hwrites
    obtain ⟨hdestination, hdirectory⟩ := hwrites
    -- the directory names the revision of the tombstoned copy, on its storage
    have hnames := h.workers.named e he path hpath
    rw [hdirectory] at hnames
    exact hsealed.idle e he (hnames.inj hwell (hnamed hnames.ne_empty)) hdestination
  | succeeded _ _ _ _ _ _ hevents => exact hquiet hevents
  | cleaned _ _ _ _ => exact ⟨_, rfl, hdeletions⟩
  | undone => exact ⟨_, rfl, hdeletions⟩
  | purged _ _ => exact hquiet rfl
  | edited _ => exact hquiet rfl

end Steps

/-- From `s` to `t` the tombstone of the copy stays, the copy does not become
available again, and no file is written to its directory. -/
structure Permanent (s t : System) (r : RevisionReplica) : Prop where
  tombstone : ∀ r' ∈ t.db.replicas, r'.pk = r.pk → r'.remoteDeletedAt = r.remoteDeletedAt
  unavailable : ∀ r' ∈ t.db.replicas, r'.pk = r.pk →
    ¬ (r'.status = .success ∧ r'.remoteAvailable = true)
  unwritten : ∃ new, t.events = s.events ++ new ∧ ∀ event ∈ new, ¬ WritesTo r event

theorem inv_fresh {nfkd : String → String} {s : System} (hfresh : Fresh s) :
    Inv nfkd (fun k => (s.db.revisions.get? k).map ConfigRevision.revisionUuid) s := by
  have hnone : ∀ r, r ∉ s.db.replicas := by
    intro r hr
    have hmem : r ∈ s.db.replicas.rows := hr
    rw [hfresh.replicas] at hmem
    cases hmem
  have hidle : ∀ e, e ∉ s.executions := by
    intro e he
    have hmem : e ∈ s.executions.rows := he
    rw [hfresh.executions] at hmem
    cases hmem
  refine ⟨⟨fun r hr => absurd hr (hnone r), fun r hr => absurd hr (hnone r), ?_,
    fun r hr => absurd hr (hnone r)⟩, ⟨fun e he => absurd he (hidle e),
    fun e he => absurd he (hidle e), fun e he => absurd he (hidle e),
    fun e he => absurd he (hidle e)⟩⟩
  intro k v hv
  rw [hv]
  rfl

theorem wellNamed_of_unique {db : Database} (h : UniqueUuids db) :
    WellNamed (fun k => (db.revisions.get? k).map ConfigRevision.revisionUuid) where
  text k uuid huuid := by
    obtain ⟨v, hv, rfl⟩ := Option.map_eq_some_iff.mp huuid
    exact h.text v ((Table.get?_eq_some_iff _ _ _).mp hv).1
  inj k k' uuid huuid huuid' := by
    obtain ⟨v, hv, rfl⟩ := Option.map_eq_some_iff.mp huuid
    obtain ⟨w, hw, hwv⟩ := Option.map_eq_some_iff.mp huuid'
    obtain ⟨hv, hvk⟩ := (Table.get?_eq_some_iff _ _ _).mp hv
    obtain ⟨hw, hwk⟩ := (Table.get?_eq_some_iff _ _ _).mp hw
    rw [← hvk, ← hwk]
    exact h.inj v hv w hw hwv.symm

/-- In every guarded run a tombstone is permanent. -/
theorem tombstones_are_permanent (nfkd : String → String) (start : System) (hfresh : Fresh start)
    (huuids : UniqueUuids start.db) (before after : List Step)
    (hguarded : Guarded (step nfkd) guard start (before ++ after)) (s t : System)
    (hs : exec (step nfkd) start before = some s) (ht : exec (step nfkd) s after = some t)
    (r : RevisionReplica) (hr : r ∈ s.db.replicas) (hdeleted : r.remoteDeletedAt ≠ none) :
    Permanent s t r := by
  let uuids (k : ℕ) : Option String := (start.db.revisions.get? k).map ConfigRevision.revisionUuid
  have hwell : WellNamed uuids := wellNamed_of_unique huuids
  obtain ⟨hbefore, hafter⟩ := guarded_append hs hguarded
  have hinv : Inv nfkd uuids s := invariant_of_step (Inv nfkd uuids)
    (fun _ _ _ h hguard hstep => inv_step h hguard hstep) (inv_fresh hfresh) hbefore hs
  have hnamed := (hinv.rows.step r hr).named
  -- no execution can work on the revision and storage of the tombstoned row
  have hsealed : Sealed r s.db s.executions := by
    refine ⟨?_, s.db.replicas.below r hr, fun _ => ⟨r, hr, rfl⟩, ?_⟩
    · intro r' hr' hkey
      rw [s.db.replicas.eq_of_key_eq hr' hr hkey]
      exact ⟨rfl, rfl, rfl⟩
    · intro e he hrevision hdestination
      have hexists : (s.db.revisions.get? e.loaded.revision.pk).isSome := by
        rw [hrevision]
        exact hinv.rows.foreign r hr
      obtain ⟨r', hr', hkey⟩ := hinv.workers.owned e he hexists
      obtain ⟨hrr, hrd, hlive⟩ := hinv.workers.row e he r' hr' hkey
      have hsame := hinv.rows.unique r' hr' r hr (hrr.trans hrevision) (hrd.trans hdestination)
      exact hdeleted (hsame ▸ hlive)
  have hend := invariant_of_step
    (fun u => Inv nfkd uuids u ∧ Sealed r u.db u.executions ∧
      ∃ new, u.events = s.events ++ new ∧ ∀ event ∈ new, ¬ WritesTo r event)
    (by
      intro u a u' ⟨hu, husealed, new, hnew, hmiss⟩ hguard hstep
      obtain ⟨more, hmore, hmissMore⟩ := events_step hwell hu husealed hnamed hstep
      refine ⟨inv_step hu hguard hstep, sealed_step hu hdeleted husealed hstep, new ++ more, ?_, ?_⟩
      · rw [hmore, hnew, List.append_assoc]
      · intro event hmem
        rcases List.mem_append.mp hmem with hmem | hmem
        · exact hmiss event hmem
        · exact hmissMore event hmem)
    (show Inv nfkd uuids s ∧ Sealed r s.db s.executions ∧
        ∃ new, s.events = s.events ++ new ∧ ∀ event ∈ new, ¬ WritesTo r event from
      ⟨hinv, hsealed, [], by simp, fun _ hmem => absurd hmem List.not_mem_nil⟩) hafter ht
  obtain ⟨hinvt, hsealedt, hevents⟩ := hend
  refine ⟨fun r' hr' hkey => (hsealedt.row r' hr' hkey).2.2, ?_, hevents⟩
  intro r' hr' hkey ⟨_, havailable⟩
  have htombstone : r'.remoteDeletedAt ≠ none := by
    rw [(hsealedt.row r' hr' hkey).2.2]
    exact hdeleted
  rw [(hinvt.rows.step r' hr').unavailable htombstone] at havailable
  cases havailable

/-- The worker of revision 1 is still uploading when the reconciler gives its
copy up and retention deletes it. -/
def expiredUnderWorker : List Step :=
  queueCopy 1 1 11 0 ++ queueCopy 2 2 12 (days 1) ++
    [.markRunning 2 (days 1), .upload 1, .markSuccess 1 5 (days 1), .markRunning 1 (days 1),
      .reconcileQuery (days 2) 120, .reconcile 1 (some 11) none (days 2),
      .remoteRetentionCleanup willing 1 (days 3)]

/-- The worker goes on and commits its success. -/
def lateSuccess : List Step := [.upload 2, .markSuccess 2 5 (days 3)]

theorem uniqueUuids_exampleSystem : UniqueUuids exampleSystem.db := by
  have hrows : ∀ v ∈ exampleSystem.db.revisions, isUuidText v.revisionUuid = true ∧
      (v.revisionUuid = "0f8fad5b-d9cb-469f-a165-70867728950e" ∧ v.pk = 1 ∨
        v.revisionUuid = "7c9e6679-7425-40de-944b-e07fc1f90ae7" ∧ v.pk = 2) := by
    intro v hv
    rcases List.mem_cons.mp hv with rfl | hv
    · decide +kernel
    · rw [List.mem_singleton.mp hv]
      decide +kernel
  refine ⟨fun v hv => (hrows v hv).1, ?_⟩
  intro v hv w hw heq
  rcases (hrows v hv).2 with ⟨hvu, hvk⟩ | ⟨hvu, hvk⟩ <;>
    rcases (hrows w hw).2 with ⟨hwu, hwk⟩ | ⟨hwu, hwk⟩
  · rw [hvk, hwk]
  · rw [hvu, hwu] at heq
    exact absurd heq (by decide)
  · rw [hvu, hwu] at heq
    exact absurd heq (by decide)
  · rw [hvk, hwk]

/-- Both copies are uploaded before retention keeps one of them. -/
def bothUploaded : List Step :=
  queueCopy 1 1 11 0 ++ queueCopy 2 2 12 (days 1) ++
    [.markRunning 2 (days 1), .upload 1, .markSuccess 1 5 (days 1), .markRunning 1 (days 1),
      .upload 2, .markSuccess 2 5 (days 1)]

theorem guarded_bothUploaded : Guarded (step id) guard exampleSystem
    (bothUploaded ++ [.remoteRetentionCleanup willing 1 (days 3), .enqueue 1 true (days 4) 13]) := by
  apply Guarded.append
  · apply guarded_of_forall
    simp [bothUploaded, queueCopy, guard]
  · intro u hu
    have hidle : (exec (step id) exampleSystem bothUploaded).map (fun s => s.executions.rows.length) =
        some 0 := by decide +kernel
    rw [hu, Option.map_some, Option.some.injEq, List.length_eq_zero_iff] at hidle
    refine ⟨?_, fun _ _ => ⟨trivial, fun _ _ => trivial⟩⟩
    intro _ _ e he
    have hmem : e ∈ u.executions.rows := he
    rw [hidle] at hmem
    cases hmem

theorem tombstones_are_permanent_uploaded : ∃ s t r,
    exec (step id) exampleSystem (bothUploaded ++ [.remoteRetentionCleanup willing 1 (days 3)]) =
      some s ∧ exec (step id) s [.enqueue 1 true (days 4) 13] = some t ∧ r ∈ s.db.replicas ∧
      r.remoteDeletedAt ≠ none ∧ Permanent s t r := by
  have hsome : (exec (step id) exampleSystem (bothUploaded ++
      [.remoteRetentionCleanup willing 1 (days 3)])).any (fun s =>
        s.db.replicas.rows.any (fun r => r.remoteDeletedAt.isSome) &&
          (exec (step id) s [.enqueue 1 true (days 4) 13]).isSome) = true := by decide +kernel
  obtain ⟨s, hs, hfacts⟩ := (Option.any_eq_true _ _).mp hsome
  obtain ⟨hrow, hrest⟩ := Bool.and_eq_true_iff.mp hfacts
  obtain ⟨r, hr, hdeleted⟩ := List.any_eq_true.mp hrow
  obtain ⟨t, ht⟩ := Option.isSome_iff_exists.mp hrest
  have hne : r.remoteDeletedAt ≠ none := Option.isSome_iff_ne_none.mp hdeleted
  exact ⟨s, t, r, hs, ht, hr, hne, tombstones_are_permanent id exampleSystem fresh_exampleSystem
    uniqueUuids_exampleSystem (bothUploaded ++ [.remoteRetentionCleanup willing 1 (days 3)])
    [.enqueue 1 true (days 4) 13] (by simpa using guarded_bothUploaded) s t hs ht r hr hne⟩

/-- The late success mark clears the tombstone. -/
theorem tombstone_cleared :
    ¬ ∀ (nfkd : String → String) (start : System), Fresh start → UniqueUuids start.db →
      ∀ (before after : List Step) (s t : System), exec (step nfkd) start before = some s →
        exec (step nfkd) s after = some t → ∀ r ∈ s.db.replicas, r.remoteDeletedAt ≠ none →
          Permanent s t r := by
  intro h
  have hsome : (exec (step id) exampleSystem expiredUnderWorker).any (fun s =>
      s.db.replicas.rows.any (fun r => r.pk == 1 && r.remoteDeletedAt.isSome) &&
        (exec (step id) s lateSuccess).any (fun t =>
          t.db.replicas.rows.any (fun r => r.pk == 1 && r.remoteDeletedAt.isNone))) = true := by
    decide +kernel
  obtain ⟨s, hs, hfacts⟩ := (Option.any_eq_true _ _).mp hsome
  obtain ⟨hrow, hrest⟩ := Bool.and_eq_true_iff.mp hfacts
  obtain ⟨r, hr, hkeys⟩ := List.any_eq_true.mp hrow
  obtain ⟨t, ht, hcleared⟩ := (Option.any_eq_true _ _).mp hrest
  obtain ⟨r', hr', hkeys'⟩ := List.any_eq_true.mp hcleared
  simp only [Bool.and_eq_true, beq_iff_eq] at hkeys hkeys'
  have hne : r.remoteDeletedAt ≠ none := Option.isSome_iff_ne_none.mp hkeys.2
  have hpermanent := h id exampleSystem fresh_exampleSystem uniqueUuids_exampleSystem
    expiredUnderWorker lateSuccess s t hs ht r hr hne
  have hsame := hpermanent.tombstone r' hr' (hkeys'.1.trans hkeys.1.symm)
  rw [Option.isNone_iff_eq_none.mp hkeys'.2] at hsame
  exact hne hsame.symm

end ConfigBackup.PermanentTombstones
