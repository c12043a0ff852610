import ConfigBackup.GuardedRuns
import ConfigBackup.RemoteCleanup

/-!
Restorable copies across remote cleanups. A cleanup never changes a usable
copy it does not call the deletion for, and it spares the newest usable copy
of every enabled storage exactly when the plan of that storage keeps its
revision among the other recorded copies, failed ones included.
-/

namespace ConfigBackup.NewestCopies

open Calendar GuardedRuns KeptRevisions Models NewestFirst RemoteCleanup RemoteRetention Retention
  Tables

/-- A copy of the target on the storage that can be restored. -/
def UsableCopy (db : Database) (targetId destinationId : ℕ) (replica : RevisionReplica) : Prop :=
  replica ∈ db.replicas ∧ usable replica = true ∧ replica.destination = destinationId ∧
    targetOf db replica = some targetId

/-- A usable copy such that no other one is of a newer revision. -/
def NewestUsableCopy (db : Database) (targetId destinationId : ℕ) (replica : RevisionReplica) :
    Prop :=
  UsableCopy db targetId destinationId replica ∧
    ∀ other, UsableCopy db targetId destinationId other →
      ∀ v w, db.revisions.get? replica.revision = some v →
        db.revisions.get? other.revision = some w → ¬ w.newer v

/-- What a cleanup leaves alone, given the keys its calls were about. -/
structure Frame (db db' : Database) (calls : List ℕ) : Prop where
  kept : ∀ targetId destinationId replica, UsableCopy db targetId destinationId replica →
    replica.pk ∉ calls → UsableCopy db' targetId destinationId replica
  origin : ∀ targetId destinationId replica, UsableCopy db' targetId destinationId replica →
    UsableCopy db targetId destinationId replica
  stamps : ∀ k v', db'.revisions.get? k = some v' →
    ∃ v, db.revisions.get? k = some v ∧ v.created = v'.created ∧ v.pk = v'.pk
  destinations : db'.destinations = db.destinations

theorem Frame.refl (db : Database) (calls : List ℕ) : Frame db db calls where
  kept _ _ _ h _ := h
  origin _ _ _ h := h
  stamps _ v' h := ⟨v', h, rfl, rfl⟩
  destinations := rfl

theorem Frame.newest {db db' : Database} {calls : List ℕ} (h : Frame db db' calls)
    {targetId destinationId : ℕ} {replica : RevisionReplica}
    (hnewest : NewestUsableCopy db targetId destinationId replica) (hcall : replica.pk ∉ calls) :
    NewestUsableCopy db' targetId destinationId replica := by
  refine ⟨h.kept _ _ _ hnewest.1 hcall, ?_⟩
  intro other hother v' w' hv' hw' hnewer
  obtain ⟨v, hv, hvc, hvk⟩ := h.stamps _ _ hv'
  obtain ⟨w, hw, hwc, hwk⟩ := h.stamps _ _ hw'
  apply hnewest.2 other (h.origin _ _ _ hother) v w hv hw
  unfold ConfigRevision.newer newerBy at hnewer ⊢
  rw [hvc, hvk, hwc, hwk]
  exact hnewer

section Commit

variable {db : Database} {now : Instant} {calls : List ℕ} {gone : ℕ → Bool}

theorem usable_tombstone (replica : RevisionReplica) :
    usable (tombstone now replica) = false := by
  simp [usable, tombstone]

theorem mem_tombstoned {replica : RevisionReplica} (husable : usable replica = true) :
    replica ∈ (tombstoned db now calls).replicas ↔ replica ∈ db.replicas ∧ replica.pk ∉ calls := by
  unfold tombstoned
  simp only [Table.mem_map]
  constructor
  · intro ⟨source, hsource, heq⟩
    by_cases hcall : source.pk ∈ calls
    · rw [if_pos hcall] at heq
      rw [← heq, usable_tombstone] at husable
      cases husable
    · rw [if_neg hcall] at heq
      exact heq ▸ ⟨hsource, hcall⟩
  · intro ⟨hmem, hcall⟩
    exact ⟨replica, hmem, by rw [if_neg hcall]⟩

/-- A revision with a usable copy owns something. -/
theorem ownsNothing_eq_false {replica : RevisionReplica} (hmem : replica ∈ db.replicas)
    (husable : usable replica = true) : ownsNothing db replica.revision = false := by
  have hany : (db.replicasOf replica.revision).any (fun r =>
      (r.remoteAvailable || r.remotePath != "") && r.remoteDeletedAt.isNone) = true := by
    simp only [usable, Bool.and_eq_true] at husable
    refine List.any_eq_true.mpr ⟨replica, List.mem_filter.mpr ⟨hmem, by simp⟩, ?_⟩
    simp [husable.1.2, husable.2]
  simp [ownsNothing, hany]

theorem targetOf_commit {replica : RevisionReplica} (hgone : gone replica.revision = false) :
    targetOf ((tombstoned db now calls).deleteRevisions gone) replica = targetOf db replica := by
  have hrevisions : (tombstoned db now calls).revisions = db.revisions := rfl
  unfold targetOf
  rw [Database.get?_deleteRevisions, hrevisions]
  cases hrev : db.revisions.get? replica.revision with
  | none => rfl
  | some revision =>
    have hpk : revision.pk = replica.revision := ((Table.get?_eq_some_iff _ _ _).mp hrev).2
    simp [hpk, hgone]

theorem frame_commit
    (hgone : ∀ k, gone k = true → ownsNothing (tombstoned db now calls) k = true) :
    Frame db ((tombstoned db now calls).deleteRevisions gone) calls where
  kept targetId destinationId replica h hcall := by
    have hmem : replica ∈ (tombstoned db now calls).replicas :=
      (mem_tombstoned h.2.1).mpr ⟨h.1, hcall⟩
    have hstays : gone replica.revision = false := by
      cases hg : gone replica.revision with
      | false => rfl
      | true =>
        have howns := hgone _ hg
        rw [ownsNothing_eq_false hmem h.2.1] at howns
        cases howns
    exact ⟨Database.mem_replicas_deleteRevisions.mpr ⟨hmem, hstays⟩, h.2.1, h.2.2.1,
      (targetOf_commit hstays).trans h.2.2.2⟩
  origin targetId destinationId replica h := by
    obtain ⟨hmem, hstays⟩ := Database.mem_replicas_deleteRevisions.mp h.1
    exact ⟨((mem_tombstoned h.2.1).mp hmem).1, h.2.1, h.2.2.1,
      (targetOf_commit hstays).symm.trans h.2.2.2⟩
  stamps k v' h := by
    rw [Database.get?_deleteRevisions] at h
    obtain ⟨v, hv, rfl⟩ := Option.map_eq_some_iff.mp h
    exact ⟨v, (Option.filter_eq_some_iff.mp hv).1, rfl, rfl⟩
  destinations := rfl

end Commit

theorem frame_cleanup (server : Server) (targetId : ℕ) (now : Instant) (db : Database) :
    Frame db (executeRemoteRetentionCleanup server targetId now db).db
      (executeRemoteRetentionCleanup server targetId now db).calls := by
  have hunchanged : (executeRemoteRetentionCleanup server targetId now db).db = db →
      Frame db (executeRemoteRetentionCleanup server targetId now db).db
        (executeRemoteRetentionCleanup server targetId now db).calls :=
    fun h => by rw [h]; exact Frame.refl db _
  cases htarget : db.targets.get? targetId with
  | none => exact hunchanged (cleanup_refused (Or.inl htarget)).1
  | some target =>
    cases hactive : db.hasActiveRun targetId with
    | true => exact hunchanged (cleanup_refused (Or.inr hactive)).1
    | false =>
      have hspec := @cleanup_spec db targetId target now server htarget hactive
      rcases hspec.2 with h | h
      · exact hunchanged h
      · obtain ⟨⟨gone, hdb, hgone⟩, _⟩ := h
        rw [hdb]
        exact frame_commit (fun k hk => (hgone k hk).1)

section Spared

variable {db : Database} {targetId : ℕ} {now : Instant}

/-- No plan that the cleanup reaches expires the newest usable copy of its
storage: the revision is kept, or another copy of it awaits a transfer. -/
def SparesNewest (db : Database) (targetId : ℕ) (now : Instant) : Prop :=
  ∀ target, db.targets.get? targetId = some target → db.hasActiveRun targetId = false →
    ∀ destination ∈ lockedDestinations db targetId, destination.enabled = true →
      Reached db target now destination →
      ∀ policy, effectivePolicy db target destination = some policy →
        daysBefore now policy.keepAllDays ≠ none →
        ∀ replica, NewestUsableCopy db targetId destination.pk replica →
          (replicasByRevision (lockedReplicas db targetId) destination.pk replica.revision).any
            transferPending = true ∨
          ∀ revision, db.revisions.get? replica.revision = some revision →
            Kept (settingsFromRemotePolicy policy) (copyCandidates db targetId destination.pk) now
              (revisionCandidate revision)

theorem lockedDestinations_spec {destination : BackupDestination} :
    destination ∈ lockedDestinations db targetId ↔ destination ∈ db.destinations ∧
      destination.protocol.replicated = true ∧
      ∃ replica ∈ lockedReplicas db targetId, replica.destination = destination.pk := by
  unfold lockedDestinations
  simp [Table.mem_iff]

/-- A spared copy is never the subject of a deletion call. -/
theorem not_called_of_spares (hspares : SparesNewest db targetId now) (server : Server)
    {ownerId destinationId : ℕ} {replica : RevisionReplica}
    (hnewest : NewestUsableCopy db ownerId destinationId replica) :
    replica.pk ∉ (executeRemoteRetentionCleanup server targetId now db).calls := by
  intro hcall
  cases htarget : db.targets.get? targetId with
  | none =>
    rw [(cleanup_refused (Or.inl htarget)).2] at hcall
    cases hcall
  | some target =>
    cases hactive : db.hasActiveRun targetId with
    | true =>
      rw [(cleanup_refused (Or.inr hactive)).2] at hcall
      cases hcall
    | false =>
      have hpk : target.pk = targetId := ((Table.get?_eq_some_iff _ _ _).mp htarget).2
      subst hpk
      obtain ⟨called, hkey, hlocked, hdel, destination, hdest, hdestKey, hidle, revision,
        hrevKey, henabled, hreached, hrecorded, policy, hpolicy, hwindow, hkept⟩ :=
        (cleanup_spec htarget hactive).1 replica.pk hcall
      have hsame : called = replica := db.replicas.eq_of_key_eq
        (mem_lockedReplicas.mp hlocked).1 hnewest.1.1 hkey
      subst hsame
      have howner : ownerId = target.pk := by
        have h := hnewest.1.2.2.2
        rw [(mem_lockedReplicas.mp hlocked).2.1] at h
        exact (Option.some.inj h).symm
      have hplace : destinationId = destination.pk := by
        rw [hdestKey]
        exact hnewest.1.2.2.1.symm
      subst howner hplace
      rcases hspares target htarget hactive destination hdest henabled hreached policy hpolicy
        hwindow called hnewest with hpending | hkeeps
      · rw [hpending] at hidle
        cases hidle
      · apply hkept
        apply hkeeps revision
        exact (Table.get?_eq_some_iff _ _ _).mpr ⟨(mem_recordedCopies.mp hrecorded).1, hrevKey⟩

theorem mem_lockedReplicas_of_usable {destination : BackupDestination}
    (hvisited : destination ∈ lockedDestinations db targetId) {replica : RevisionReplica}
    (h : UsableCopy db targetId destination.pk replica) : replica ∈ lockedReplicas db targetId := by
  obtain ⟨hmem, hrep, _⟩ := lockedDestinations_spec.mp hvisited
  have hdeleted : replica.remoteDeletedAt = none := by
    have husable := h.2.1
    simp only [usable, Bool.and_eq_true, Option.isNone_iff_eq_none] at husable
    exact husable.2
  exact mem_lockedReplicas.mpr ⟨h.1, h.2.2.2, hdeleted, destination, hmem, h.2.2.1.symm, hrep⟩

/-- If a willing server is asked to delete no newest copy, the plans spare them. -/
theorem spares_of_not_called
    (h : ∀ destination ∈ db.destinations, destination.enabled = true → ∀ replica,
      NewestUsableCopy db targetId destination.pk replica →
        replica.pk ∉ (executeRemoteRetentionCleanup willing targetId now db).calls) :
    SparesNewest db targetId now := by
  intro target htarget hactive destination hvisited henabled hreached policy hpolicy hwindow
    replica hnewest
  have hpk : target.pk = targetId := ((Table.get?_eq_some_iff _ _ _).mp htarget).2
  subst hpk
  by_contra hnot
  obtain ⟨hidle, hnotKept⟩ := not_or.mp hnot
  obtain ⟨revision, hrevision⟩ := not_forall.mp hnotKept
  obtain ⟨hrow, hkept⟩ := Classical.not_imp.mp hrevision
  obtain ⟨hrevMem, hrevKey⟩ := (Table.get?_eq_some_iff _ _ _).mp hrow
  have hlocked := mem_lockedReplicas_of_usable hvisited hnewest.1
  have howner : revision.target = target.pk := by
    have h := hnewest.1.2.2.2
    rw [targetOf, hrow, Option.map_some] at h
    exact Option.some.inj h
  have hdel := deletable_of_usable hnewest.1.2.1
  have hrecorded : revision ∈ recordedCopies db target.pk destination.pk :=
    mem_recordedCopies.mpr
      ⟨hrevMem, howner, replica, hlocked, hnewest.1.2.2.1, hrevKey.symm, hdel⟩
  apply h destination (lockedDestinations_spec.mp hvisited).1 henabled replica hnewest
  apply called_of_expires htarget hactive hlocked hvisited hnewest.1.2.2.1 hrevKey.symm hdel
  · rw [hrevKey]
    simpa using hidle
  · exact ⟨henabled, hreached, hrecorded, policy, hpolicy, hwindow, hkept⟩

end Spared

section Runs

/-- One call of the cleanup and what the environment answers during it. -/
structure Cleanup where
  targetId : ℕ
  now : Instant
  server : Server

def Cleanup.request (cleanup : Cleanup) : ℕ × Instant := (cleanup.targetId, cleanup.now)

/-- The database and the copies that deletions were called for. -/
structure State where
  db : Database
  calls : List ℕ

def step (s : State) (cleanup : Cleanup) : Option State :=
  let out := executeRemoteRetentionCleanup cleanup.server cleanup.targetId cleanup.now s.db
  some ⟨out.db, s.calls ++ out.calls⟩

def guard (s : State) (cleanup : Cleanup) : Prop :=
  SparesNewest s.db cleanup.targetId cleanup.now

/-- Every newest usable copy of an enabled storage is still one, row and all,
and its deletion was not called. -/
def Survive (db : Database) (final : State) : Prop :=
  ∀ destination ∈ db.destinations, destination.enabled = true → ∀ targetId replica,
    NewestUsableCopy db targetId destination.pk replica →
      NewestUsableCopy final.db targetId destination.pk replica ∧ replica.pk ∉ final.calls

/-- Cleanups only add calls and only take usable copies away. -/
structure Later (s s' : State) : Prop where
  calls : ∃ more, s'.calls = s.calls ++ more ∧ Frame s.db s'.db more

theorem later_step {s s' : State} {cleanup : Cleanup} (h : step s cleanup = some s') :
    Later s s' := by
  unfold step at h
  rw [Option.some.injEq] at h
  subst h
  exact ⟨_, rfl, frame_cleanup _ _ _ _⟩

theorem Frame.trans {db db' db'' : Database} {calls calls' : List ℕ} (h : Frame db db' calls)
    (h' : Frame db' db'' calls') : Frame db db'' (calls ++ calls') where
  kept targetId destinationId replica husable hcall := by
    rw [List.mem_append, not_or] at hcall
    exact h'.kept _ _ _ (h.kept _ _ _ husable hcall.1) hcall.2
  origin _ _ _ husable := h.origin _ _ _ (h'.origin _ _ _ husable)
  stamps k v'' hv'' := by
    obtain ⟨v', hv', hc', hk'⟩ := h'.stamps k v'' hv''
    obtain ⟨v, hv, hc, hk⟩ := h.stamps k v' hv'
    exact ⟨v, hv, hc.trans hc', hk.trans hk'⟩
  destinations := h'.destinations.trans h.destinations

theorem later_exec {s s' : State} {cleanups : List Cleanup}
    (h : exec step s cleanups = some s') : Later s s' := by
  induction cleanups generalizing s with
  | nil =>
    simp only [exec, Option.some.injEq] at h
    subst h
    exact ⟨[], by simp, Frame.refl _ _⟩
  | cons cleanup rest ih =>
    obtain ⟨u, hu, hrest⟩ := exec_cons_eq_some.mp h
    obtain ⟨more, hmore, hframe⟩ := later_step hu
    obtain ⟨more', hmore', hframe'⟩ := ih hrest
    exact ⟨more ++ more', by rw [hmore', hmore, List.append_assoc], hframe.trans hframe'⟩

theorem survive_step {s s' : State} {cleanup : Cleanup} (hguard : guard s cleanup)
    (hstep : step s cleanup = some s') {targetId destinationId : ℕ} {replica : RevisionReplica}
    (hnewest : NewestUsableCopy s.db targetId destinationId replica)
    (hcalls : replica.pk ∉ s.calls) :
    NewestUsableCopy s'.db targetId destinationId replica ∧ replica.pk ∉ s'.calls := by
  have hcall := not_called_of_spares hguard cleanup.server hnewest
  unfold step at hstep
  rw [Option.some.injEq] at hstep
  subst hstep
  refine ⟨(frame_cleanup _ _ _ _).newest hnewest hcall, ?_⟩
  rw [List.mem_append, not_or]
  exact ⟨hcalls, hcall⟩

theorem exec_isSome (s : State) (cleanups : List Cleanup) :
    ∃ final, exec step s cleanups = some final := by
  induction cleanups generalizing s with
  | nil => exact ⟨s, rfl⟩
  | cons cleanup rest ih =>
    obtain ⟨final, hfinal⟩ := ih _
    exact ⟨final, exec_cons_eq_some.mpr ⟨_, rfl, hfinal⟩⟩

theorem survive_of_guarded {s final : State} {cleanups : List Cleanup}
    (hg : Guarded step guard s cleanups) (hrun : exec step s cleanups = some final)
    {targetId destinationId : ℕ} {replica : RevisionReplica}
    (hnewest : NewestUsableCopy s.db targetId destinationId replica)
    (hcalls : replica.pk ∉ s.calls) :
    NewestUsableCopy final.db targetId destinationId replica ∧ replica.pk ∉ final.calls :=
  invariant_of_step
    (fun s => NewestUsableCopy s.db targetId destinationId replica ∧ replica.pk ∉ s.calls)
    (fun _ _ _ h hguard hstep => survive_step hguard hstep h.1 h.2) ⟨hnewest, hcalls⟩ hg hrun

theorem exists_newest {db : Database} {targetId destinationId : ℕ} {replica : RevisionReplica}
    (h : UsableCopy db targetId destinationId replica) :
    ∃ newest, NewestUsableCopy db targetId destinationId newest := by
  let holds (revision : ConfigRevision) : Prop :=
    ∃ copy, UsableCopy db targetId destinationId copy ∧ copy.revision = revision.pk
  classical
  have hrow : ∀ copy, UsableCopy db targetId destinationId copy →
      ∃ revision ∈ db.revisions, revision.pk = copy.revision := by
    intro copy hcopy
    obtain ⟨revision, hrev, _⟩ := Option.map_eq_some_iff.mp hcopy.2.2.2
    exact ⟨revision, (Table.get?_eq_some_iff _ _ _).mp hrev⟩
  obtain ⟨revision, hmem, hkey⟩ := hrow replica h
  have hin : revision ∈ db.revisions.rows.filter (fun v => decide (holds v)) :=
    List.mem_filter.mpr ⟨hmem, decide_eq_true ⟨replica, h, hkey.symm⟩⟩
  have hne := List.ne_nil_of_mem hin
  obtain ⟨v, hv, hmax⟩ :=
    (recency_newerBy ConfigRevision.created ConfigRevision.pk).exists_newest hne
  obtain ⟨hvMem, hvHolds⟩ := List.mem_filter.mp hv
  obtain ⟨copy, hcopy, hcopyKey⟩ := of_decide_eq_true hvHolds
  refine ⟨copy, hcopy, ?_⟩
  intro other hother v' w hv' hw
  have hsame : v' = v := by
    obtain ⟨hv'Mem, hv'Key⟩ := (Table.get?_eq_some_iff _ _ _).mp hv'
    exact db.revisions.eq_of_key_eq hv'Mem hvMem (hv'Key.trans hcopyKey)
  obtain ⟨hwMem, hwKey⟩ := (Table.get?_eq_some_iff _ _ _).mp hw
  rw [hsame]
  exact hmax w (List.mem_filter.mpr ⟨hwMem, decide_eq_true ⟨other, hother, hwKey.symm⟩⟩)

/-- When every newest copy survives, the newest copies afterwards are old ones. -/
theorem newest_before {db db' : Database} {calls : List ℕ} (hframe : Frame db db' calls)
    {targetId destinationId : ℕ}
    (hsurvive : ∀ replica, NewestUsableCopy db targetId destinationId replica →
      NewestUsableCopy db' targetId destinationId replica)
    {replica : RevisionReplica} (h : NewestUsableCopy db' targetId destinationId replica) :
    NewestUsableCopy db targetId destinationId replica := by
  refine ⟨hframe.origin _ _ _ h.1, ?_⟩
  intro other hother v w hv hw hnewer
  obtain ⟨newest, hnewest⟩ := exists_newest hother
  have hafter := hsurvive newest hnewest
  have hrow : ∀ copy, UsableCopy db' targetId destinationId copy →
      ∃ u', db'.revisions.get? copy.revision = some u' := by
    intro copy hcopy
    obtain ⟨u', hu', _⟩ := Option.map_eq_some_iff.mp hcopy.2.2.2
    exact ⟨u', hu'⟩
  obtain ⟨u', hu'⟩ := hrow newest hafter.1
  obtain ⟨v', hv'⟩ := hrow replica h.1
  obtain ⟨u, hu, huc, huk⟩ := hframe.stamps _ _ hu'
  obtain ⟨v₀, hv₀, hvc, hvk⟩ := hframe.stamps _ _ hv'
  have hsame : v₀ = v := Option.some.inj (hv₀.symm.trans hv)
  subst hsame
  rcases (recency_newerBy ConfigRevision.created ConfigRevision.pk).split w u v₀ hnewer with
    hwu | huv
  · exact hnewest.2 other hother u w hu hw hwu
  · apply h.2 newest hafter.1 v' u' hv' hu'
    unfold ConfigRevision.newer newerBy
    unfold newerBy at huv
    rw [← hvc, ← hvk, ← huc, ← huk]
    exact huv

/-- In every run of the requests no newest copy is the subject of a new call. -/
def NeverCalled (s : State) (requests : List (ℕ × Instant)) : Prop :=
  ∀ cleanups : List Cleanup, cleanups.map Cleanup.request = requests →
    ∀ final, exec step s cleanups = some final →
      ∀ destination ∈ s.db.destinations, destination.enabled = true → ∀ targetId replica,
        NewestUsableCopy s.db targetId destination.pk replica →
          ∃ more, final.calls = s.calls ++ more ∧ replica.pk ∉ more

theorem NeverCalled.first {s : State} {cleanup : Cleanup} {rest : List Cleanup}
    (h : NeverCalled s ((cleanup :: rest).map Cleanup.request)) (server : Server)
    {destination : BackupDestination} (hdest : destination ∈ s.db.destinations)
    (henabled : destination.enabled = true) {targetId : ℕ} {replica : RevisionReplica}
    (hnewest : NewestUsableCopy s.db targetId destination.pk replica) :
    replica.pk ∉
      (executeRemoteRetentionCleanup server cleanup.targetId cleanup.now s.db).calls := by
  intro hcall
  let first : Cleanup := ⟨cleanup.targetId, cleanup.now, server⟩
  let s' : State :=
    let out := executeRemoteRetentionCleanup server cleanup.targetId cleanup.now s.db
    ⟨out.db, s.calls ++ out.calls⟩
  obtain ⟨final, hfinal⟩ := exec_isSome s' rest
  have hrun : exec step s (first :: rest) = some final :=
    exec_cons_eq_some.mpr ⟨s', rfl, hfinal⟩
  obtain ⟨more, hmore, hnot⟩ :=
    h (first :: rest) rfl final hrun destination hdest henabled targetId replica hnewest
  obtain ⟨later, hlater, _⟩ := later_exec hfinal
  rw [hlater, List.append_assoc, List.append_cancel_left_eq] at hmore
  apply hnot
  rw [← hmore]
  exact List.mem_append_left _ hcall

/-- Runs that never call a newest copy's deletion meet the guard throughout:
a willing server would otherwise be asked to delete one. -/
theorem guarded_of_neverCalled {s : State} {cleanups : List Cleanup}
    (h : NeverCalled s (cleanups.map Cleanup.request)) : Guarded step guard s cleanups := by
  induction cleanups generalizing s with
  | nil => trivial
  | cons cleanup rest ih =>
    have hguard : guard s cleanup := spares_of_not_called
      (fun destination hdest henabled replica hnewest => h.first willing hdest henabled hnewest)
    refine ⟨hguard, ?_⟩
    intro s' hs'
    have hframe := frame_cleanup cleanup.server cleanup.targetId cleanup.now s.db
    unfold step at hs'
    rw [Option.some.injEq] at hs'
    subst hs'
    apply ih
    intro others hothers final hfinal destination hdest henabled targetId replica hnewest
    have hbefore : NewestUsableCopy s.db targetId destination.pk replica :=
      newest_before hframe (fun copy hcopy =>
        hframe.newest hcopy (not_called_of_spares hguard cleanup.server hcopy)) hnewest
    have hrun : exec step s (cleanup :: others) = some final :=
      exec_cons_eq_some.mpr ⟨_, rfl, hfinal⟩
    obtain ⟨more, hmore, hnot⟩ := h (cleanup :: others) (by simp [hothers]) final hrun destination
      (hframe.destinations ▸ hdest) henabled targetId replica hbefore
    obtain ⟨later, hlater, _⟩ := later_exec hfinal
    refine ⟨later, hlater, ?_⟩
    intro hmem
    rw [hlater, List.append_assoc, List.append_cancel_left_eq] at hmore
    apply hnot
    rw [← hmore]
    exact List.mem_append_right _ hmem

/-- The newest usable copies of the enabled storages survive every run of the
requested cleanups exactly when each of these cleanups spares them. -/
theorem newest_copies_survive_iff (db : Database) (requests : List (ℕ × Instant)) :
    (∀ cleanups : List Cleanup, cleanups.map Cleanup.request = requests →
      ∀ final, exec step ⟨db, []⟩ cleanups = some final → Survive db final) ↔
    (∀ cleanups : List Cleanup, cleanups.map Cleanup.request = requests →
      Guarded step guard ⟨db, []⟩ cleanups) := by
  constructor
  · intro h cleanups hrequests
    apply guarded_of_neverCalled
    intro others hothers final hfinal destination hdest henabled targetId replica hnewest
    have hsurvive := h others (hothers.trans hrequests) final hfinal destination hdest henabled
      targetId replica hnewest
    exact ⟨final.calls, rfl, hsurvive.2⟩
  · intro h cleanups hrequests final hfinal destination _ _ targetId replica hnewest
    exact survive_of_guarded (h cleanups hrequests) hfinal hnewest List.not_mem_nil

def exampleTarget : BackupTarget where
  pk := 1
  deviceId := 7
  deviceName := some "router"
  enabled := true
  policyOverride := none
  retentionOverride := none
  remoteRetentionPolicy := none
  nextRunAt := none
  lastAttemptAt := none
  lastSuccessAt := none
  lastChangeAt := none
  status := .healthy
  consecutiveFailures := 0
  lastRevision := some 2

def exampleDestination : BackupDestination where
  pk := 1
  enabled := true
  autoReplicate := true
  isDefault := false
  protocol := .ftp
  host := "ftp.example"
  port := some 21
  basePath := "backups"
  mountPath := ""
  credentialProfile := some 1
  maxRetries := 3
  retryDelayMinutes := 15
  maxArtifactSize := 1000000
  localRetentionPolicy := none
  remoteRetentionPolicy := some 1
  enforceRetentionPolicy := false
  hostKeyTrusted := false
  lastErrorCode := ""
  lastErrorMessage := ""
  lastSuccessAt := none

def exampleRevision (pk : ℕ) (created : Instant) (previous : Option ℕ) : ConfigRevision where
  pk := pk
  target := 1
  revisionUuid := if pk = 1 then "revision-1" else "revision-2"
  created := created
  normalizedHash := if pk = 1 then "hash-1" else "hash-2"
  normalizerVersion := "1"
  driverId := "driver"
  contentChanged := true
  isProtected := false
  previousRevision := previous

/-- The uploaded copy of the older revision. -/
def exampleCopy : RevisionReplica where
  pk := 1
  revision := 1
  destination := 1
  status := .success
  attempts := 1
  queuedAt := 0
  startedAt := some 0
  finishedAt := some 1
  nextRetryAt := none
  bytesTransferred := 100
  remotePath := "backups/devices/router-7/revision-1"
  remoteAvailable := true
  remoteDeletedAt := none
  errorCode := ""
  errorMessage := ""
  jobId := none

/-- The newer revision's copy, whose path was recorded and whose retries failed. -/
def exampleFailedCopy : RevisionReplica :=
  { exampleCopy with
    pk := 2, revision := 2, status := .failed, attempts := 4, bytesTransferred := 0
    remotePath := "backups/devices/router-7/revision-2", remoteAvailable := false
    errorCode := "DESTINATION_UNREACHABLE" }

def exampleDatabase : Database where
  targets := ⟨[exampleTarget], 2, by decide, by decide⟩
  destinations := ⟨[exampleDestination], 2, by decide, by decide⟩
  backupPolicies := Table.empty
  retentionPolicies := Table.empty
  remotePolicies := ⟨[⟨1, 30, 365, 104, 60, 12, some 1⟩], 2, by decide, by decide⟩
  revisions := ⟨[exampleRevision 1 0 none, exampleRevision 2 (days 1) (some 1)], 3, by decide,
    by decide⟩
  artifacts := Table.empty
  replicas := ⟨[exampleCopy, exampleFailedCopy], 3, by decide, by decide⟩
  runs := Table.empty

theorem exampleCopy_newest : NewestUsableCopy exampleDatabase 1 1 exampleCopy := by
  have hmem : exampleCopy ∈ exampleDatabase.replicas := List.mem_cons_self
  refine ⟨⟨hmem, by decide, by decide, by decide⟩, ?_⟩
  intro other hother v w hv hw hnewer
  have hsame : other = exampleCopy := by
    have hrows : other ∈ [exampleCopy, exampleFailedCopy] := hother.1
    rcases List.mem_pair.mp hrows with h | h
    · exact h
    · have hfailed := hother.2.1
      rw [h] at hfailed
      exact absurd hfailed (by decide)
  rw [hsame, hv, Option.some.injEq] at hw
  subst hw
  exact (recency_newerBy _ _).asymm _ _ hnewer hnewer

/-- With one copy allowed on the storage, the failed newer copy takes the place
and the only restorable copy is deleted. -/
theorem newest_copy_deleted :
    ¬ ∀ (db : Database) (cleanups : List Cleanup) (final : State),
      exec step ⟨db, []⟩ cleanups = some final → Survive db final := by
  intro h
  have hsurvive := h exampleDatabase [⟨1, days 2, willing⟩] _ rfl exampleDestination
    List.mem_cons_self rfl 1 exampleCopy exampleCopy_newest
  apply hsurvive.2
  decide

end Runs

end ConfigBackup.NewestCopies
