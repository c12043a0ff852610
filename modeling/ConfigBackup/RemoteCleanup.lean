import ConfigBackup.KeptRevisions
import ConfigBackup.RemoteRetention

/-!
What one remote cleanup does to the rows, whatever the remote storage answers:
it calls the deletion only for copies that its plan expires, tombstones the
copies it deleted, and removes only revisions that own nothing any more.
-/

namespace ConfigBackup.RemoteCleanup

open Calendar ExceptLoops KeptRevisions Models NewestFirst RemoteRetention Retention Tables

/-- The copy can be restored from its remote storage. -/
def usable (replica : RevisionReplica) : Bool :=
  replica.status == .success && replica.remoteAvailable && replica.remoteDeletedAt.isNone

theorem deletable_of_usable {replica : RevisionReplica} (h : usable replica = true) :
    deletable replica = true := by
  simp only [usable, Bool.and_eq_true] at h
  simp [deletable, h.1.1, h.1.2]

theorem mem_lockedReplicas {db : Database} {targetId : ℕ} {replica : RevisionReplica} :
    replica ∈ lockedReplicas db targetId ↔ replica ∈ db.replicas ∧
      targetOf db replica = some targetId ∧ replica.remoteDeletedAt = none ∧
      ∃ d ∈ db.destinations, d.pk = replica.destination ∧ d.protocol.replicated = true := by
  unfold lockedReplicas
  simp only [List.mem_filter, Bool.and_eq_true, beq_iff_eq, Option.isNone_iff_eq_none,
    Option.any_eq_true]
  constructor
  · intro ⟨hmem, ⟨htarget, hdeleted⟩, d, hd, hrep⟩
    obtain ⟨hd, hpk⟩ := (Table.get?_eq_some_iff _ _ _).mp hd
    exact ⟨hmem, htarget, hdeleted, d, hd, hpk, hrep⟩
  · intro ⟨hmem, htarget, hdeleted, d, hd, hpk, hrep⟩
    exact ⟨hmem, ⟨htarget, hdeleted⟩, d, (Table.get?_eq_some_iff _ _ _).mpr ⟨hd, hpk⟩, hrep⟩

theorem mem_lockedRevisions {db : Database} {targetId : ℕ} {revision : ConfigRevision} :
    revision ∈ lockedRevisions db targetId ↔ revision ∈ db.revisions ∧
      revision.target = targetId ∧
      ∃ replica ∈ lockedReplicas db targetId, replica.revision = revision.pk := by
  unfold lockedRevisions Database.targetRevisions
  simp only [mem_newestFirst, List.mem_filter, List.any_eq_true, beq_iff_eq, Table.mem_iff]
  tauto

/-- Revisions of the target with a deletable copy on the storage. -/
def recordedCopies (db : Database) (targetId destinationId : ℕ) : List ConfigRevision :=
  db.revisions.rows.filter (fun revision => revision.target == targetId &&
    (lockedReplicas db targetId).any (fun replica => replica.destination == destinationId &&
      replica.revision == revision.pk && deletable replica))

theorem mem_recordedCopies {db : Database} {targetId destinationId : ℕ}
    {revision : ConfigRevision} :
    revision ∈ recordedCopies db targetId destinationId ↔ revision ∈ db.revisions ∧
      revision.target = targetId ∧ ∃ replica ∈ lockedReplicas db targetId,
        replica.destination = destinationId ∧ replica.revision = revision.pk ∧
        deletable replica = true := by
  unfold recordedCopies
  simp [Table.mem_iff, and_assoc]

theorem any_replicasByRevision {locked : List RevisionReplica} {destinationId revisionId : ℕ}
    {p : RevisionReplica → Bool} :
    (replicasByRevision locked destinationId revisionId).any p = true ↔
      ∃ replica ∈ locked, replica.destination = destinationId ∧
        replica.revision = revisionId ∧ p replica = true := by
  unfold replicasByRevision
  simp [and_assoc]

private theorem find_lockedRevisions {db : Database} {targetId key : ℕ}
    {revision : ConfigRevision} :
    (lockedRevisions db targetId).find? (fun r => r.pk == key) = some revision ↔
      revision ∈ lockedRevisions db targetId ∧ revision.pk = key := by
  constructor
  · intro h
    exact ⟨List.mem_of_find?_eq_some h, by simpa using List.find?_some h⟩
  · intro ⟨hmem, hkey⟩
    cases hf : (lockedRevisions db targetId).find? (fun r => r.pk == key) with
    | none => simpa [hkey] using List.find?_eq_none.mp hf revision hmem
    | some other =>
      have hother : other.pk = key := by simpa using List.find?_some hf
      have hlocked := mem_lockedRevisions.mp (List.mem_of_find?_eq_some hf)
      rw [db.revisions.eq_of_key_eq hlocked.1 (mem_lockedRevisions.mp hmem).1
        (hother.trans hkey.symm)]

theorem mem_candidateRevisions {db : Database} {targetId destinationId : ℕ}
    {revision : ConfigRevision} :
    revision ∈ candidateRevisions db (lockedReplicas db targetId) targetId destinationId ↔
      revision ∈ recordedCopies db targetId destinationId := by
  rw [mem_recordedCopies]
  simp only [candidateRevisions, List.mem_filterMap, List.mem_dedup, List.mem_map,
    List.mem_filter, beq_iff_eq, Option.ite_none_right_eq_some, any_replicasByRevision,
    find_lockedRevisions]
  constructor
  · intro ⟨key, _, ⟨replica, hlocked, hdest, hrev, hdel⟩, hmem, hkey⟩
    obtain ⟨hmem, htarget, _⟩ := mem_lockedRevisions.mp hmem
    exact ⟨hmem, htarget, replica, hlocked, hdest, hrev.trans hkey.symm, hdel⟩
  · intro ⟨hmem, htarget, replica, hlocked, hdest, hrev, hdel⟩
    exact ⟨revision.pk, ⟨replica, ⟨hlocked, hdest⟩, hrev⟩, ⟨replica, hlocked, hdest, hrev, hdel⟩,
      mem_lockedRevisions.mpr ⟨hmem, htarget, replica, hlocked, hrev⟩, rfl⟩

/-- The planner sees the recorded copies, in whatever order the dictionary has. -/
theorem candidateRevisions_perm (db : Database) (targetId destinationId : ℕ) :
    (candidateRevisions db (lockedReplicas db targetId) targetId destinationId).Perm
      (recordedCopies db targetId destinationId) := by
  have hcandidates : (candidateRevisions db (lockedReplicas db targetId) targetId
      destinationId).Nodup := by
    refine List.Nodup.filterMap ?_ (List.nodup_dedup _)
    intro key key' revision hkey hkey'
    simp only [Option.mem_def, Option.ite_none_right_eq_some, find_lockedRevisions] at hkey hkey'
    exact hkey.2.2.symm.trans hkey'.2.2
  have hrecorded : (recordedCopies db targetId destinationId).Nodup :=
    db.revisions.nodup_rows.filter _
  exact (List.perm_ext_iff_of_nodup hcandidates hrecorded).mpr (fun _ => mem_candidateRevisions)

/-- The candidates that the declarative retention rules are read over. -/
def copyCandidates (db : Database) (targetId destinationId : ℕ) : List RevisionCandidate :=
  (recordedCopies db targetId destinationId).map revisionCandidate

theorem distinctIds_copyCandidates (db : Database) (targetId destinationId : ℕ) :
    DistinctIds (copyCandidates db targetId destinationId) := by
  unfold DistinctIds copyCandidates
  rw [List.pairwise_map]
  refine List.Pairwise.filter _ (db.revisions.sorted.imp ?_)
  intro a b hab
  exact Nat.ne_of_lt hab

section Expiry

variable {db : Database} {target : BackupTarget} {now : Instant}

/-- Profile that the cleanup applies to the storage. -/
def effectivePolicy (db : Database) (target : BackupTarget) (destination : BackupDestination) :
    Option RemoteRetentionPolicy :=
  (effectiveRemoteRetentionPolicyId target destination).bind db.remotePolicies.get?

/-- The storage's turn raises: its profile row is missing or has no plan. -/
def raises (db : Database) (target : BackupTarget) (now : Instant)
    (destination : BackupDestination) : Bool :=
  destination.enabled && (effectiveRemoteRetentionPolicyId target destination).isSome &&
    (effectivePolicy db target destination).all
      (fun policy => (daysBefore now policy.keepAllDays).isNone)

/-- No storage that the loop visits earlier raises. -/
def Reached (db : Database) (target : BackupTarget) (now : Instant)
    (destination : BackupDestination) : Prop :=
  ∀ earlier ∈ lockedDestinations db target.pk, earlier.pk < destination.pk →
    raises db target now earlier = false

/-- The plan for the storage deletes the revision's copies on it. -/
def Expires (db : Database) (target : BackupTarget) (now : Instant)
    (destination : BackupDestination) (revision : ConfigRevision) : Prop :=
  destination.enabled = true ∧ Reached db target now destination ∧
    revision ∈ recordedCopies db target.pk destination.pk ∧
    ∃ policy, effectivePolicy db target destination = some policy ∧
      daysBefore now policy.keepAllDays ≠ none ∧
      ¬ Kept (settingsFromRemotePolicy policy) (copyCandidates db target.pk destination.pk) now
        (revisionCandidate revision)

theorem buildRetentionPlan_eq_some {settings : RetentionSettings}
    {revisions : List RevisionCandidate} {plan : RetentionPlan}
    (h : buildRetentionPlan settings revisions [] now = some plan) :
    planRevisions settings revisions now = some plan.revisionDecisions := by
  unfold buildRetentionPlan at h
  cases hr : planRevisions settings revisions now with
  | none => simp [hr] at h
  | some decisions =>
    simp only [hr, planRuns, decideRuns, newestFirst, List.insertionSort_nil,
      Option.bind_eq_bind, Option.bind_some, Option.pure_def, Option.some.injEq] at h
    rw [← h]

theorem mem_expired_plan {destination : BackupDestination} {policy : RemoteRetentionPolicy}
    {plan : RetentionPlan}
    (hplan : buildRetentionPlan (settingsFromRemotePolicy policy)
      ((candidateRevisions db (lockedReplicas db target.pk) target.pk destination.pk).map
        revisionCandidate) [] now = some plan) (k : ℕ) :
    k ∈ expired plan.revisionDecisions ↔
      ∃ revision ∈ recordedCopies db target.pk destination.pk, revision.pk = k ∧
        ¬ Kept (settingsFromRemotePolicy policy) (copyCandidates db target.pk destination.pk) now
          (revisionCandidate revision) := by
  have hperm : ((candidateRevisions db (lockedReplicas db target.pk) target.pk
      destination.pk).map revisionCandidate).Perm (copyCandidates db target.pk destination.pk) :=
    (candidateRevisions_perm db target.pk destination.pk).map revisionCandidate
  have hids := DistinctIds.perm hperm (distinctIds_copyCandidates db target.pk destination.pk)
  have hdecisions := buildRetentionPlan_eq_some hplan
  have hmem : ∀ revision ∈ recordedCopies db target.pk destination.pk,
      revisionCandidate revision ∈ (candidateRevisions db (lockedReplicas db target.pk) target.pk
        destination.pk).map revisionCandidate :=
    fun revision h => List.mem_map_of_mem (mem_candidateRevisions.mpr h)
  constructor
  · intro h
    obtain ⟨candidate, hc, hk⟩ := exists_of_mem_expired_planRevisions hdecisions h
    obtain ⟨revision, hr, rfl⟩ := List.mem_map.mp hc
    have hr := mem_candidateRevisions.mp hr
    subst hk
    refine ⟨revision, hr, rfl, ?_⟩
    rw [← kept_perm hperm]
    exact (mem_expired_planRevisions hids hdecisions (hmem revision hr)).mp h
  · intro ⟨revision, hr, hk, hkept⟩
    subst hk
    rw [← kept_perm hperm] at hkept
    exact (mem_expired_planRevisions hids hdecisions (hmem revision hr)).mpr hkept

end Expiry

section Progress

variable {db : Database} {now : Instant}

/-- The database with the copies under the given keys tombstoned. -/
def tombstoned (db : Database) (now : Instant) (calls : List ℕ) : Database :=
  { db with
    replicas := db.replicas.map
      (fun r => if r.pk ∈ calls then tombstone now r else r) (fun r => by split <;> rfl) }

theorem tombstoned_nil (db : Database) (now : Instant) : tombstoned db now [] = db := by
  unfold tombstoned
  congr 1
  apply Table.ext
  · simp [Table.map]
  · rfl

theorem saveTombstone_tombstoned (db : Database) (now : Instant) (calls : List ℕ) (pk : ℕ) :
    saveTombstone (tombstoned db now calls) now pk = tombstoned db now (calls ++ [pk]) := by
  have hreplicas : (tombstoned db now calls).replicas.update pk (tombstone now) (fun _ => rfl) =
      (tombstoned db now (calls ++ [pk])).replicas := by
    apply Table.ext
    · simp only [tombstoned, Table.update, Table.map, List.map_map]
      refine List.map_congr_left (fun r _ => ?_)
      have hpk : (if r.pk ∈ calls then tombstone now r else r).pk = r.pk := by split <;> rfl
      simp only [Function.comp_apply, hpk, List.mem_append, List.mem_singleton]
      by_cases hcalled : r.pk ∈ calls
      · rw [if_pos hcalled, if_pos (Or.inl hcalled)]
        split <;> rfl
      · simp only [hcalled, if_false, false_or]
    · rfl
  unfold saveTombstone
  rw [hreplicas]
  rfl

/-- The plan of its storage expires the copy, and the copy's revision awaits no
transfer to that storage. -/
def CopyExpires (db : Database) (target : BackupTarget) (now : Instant)
    (replica : RevisionReplica) : Prop :=
  replica ∈ lockedReplicas db target.pk ∧ deletable replica = true ∧
    ∃ destination ∈ lockedDestinations db target.pk, destination.pk = replica.destination ∧
      (replicasByRevision (lockedReplicas db target.pk) destination.pk replica.revision).any
        transferPending = false ∧
      ∃ revision, revision.pk = replica.revision ∧ Expires db target now destination revision

/-- Every logged call is about an expired copy. -/
def CallsExpired (db : Database) (target : BackupTarget) (now : Instant) (calls : List ℕ) : Prop :=
  ∀ pk ∈ calls, ∃ replica, replica.pk = pk ∧ CopyExpires db target now replica

/-- The remote storage has confirmed every logged call. -/
def Confirmed (server : Server) (db : Database) (calls : List ℕ) : Prop :=
  ∀ pk ∈ calls, ∃ replica ∈ db.replicas, replica.pk = pk ∧
    ∃ result, server.delete replica = .ok result

/-- The open transaction has tombstoned exactly the copies in the log, and a
revision counts as completed only when one of its copies is among them. -/
structure InProgress (server : Server) (db : Database) (target : BackupTarget) (now : Instant)
    (p : Progress) : Prop where
  tombstones : p.db = tombstoned db now p.calls
  expired : CallsExpired db target now p.calls
  confirmed : Confirmed server db p.calls
  completed : ∀ k ∈ p.completedRevisionIds,
    ∃ replica ∈ db.replicas, replica.revision = k ∧ replica.pk ∈ p.calls

variable {target : BackupTarget} {server : Server}

theorem inProgress_start : InProgress server db target now (Progress.start db) where
  tombstones := (tombstoned_nil db now).symm
  expired _ h := absurd h List.not_mem_nil
  confirmed _ h := absurd h List.not_mem_nil
  completed _ h := absurd h List.not_mem_nil

theorem outcome_deleteReplica {p : Progress} {replica : RevisionReplica}
    (hp : InProgress server db target now p) (hcall : CopyExpires db target now replica) :
    Outcome (fun q => InProgress server db target now q ∧ replica.pk ∈ q.calls ∧
        ∀ pk ∈ p.calls, pk ∈ q.calls)
      (fun e => CallsExpired db target now e.2.calls) (deleteReplica server now p replica) := by
  have hcalls : CallsExpired db target now (p.calls ++ [replica.pk]) := by
    intro pk hpk
    rcases List.mem_append.mp hpk with hpk | hpk
    · exact hp.expired pk hpk
    · exact ⟨replica, (List.mem_singleton.mp hpk).symm, hcall⟩
  unfold deleteReplica
  cases hdelete : server.delete replica with
  | error failure => exact hcalls
  | ok result =>
    refine ⟨⟨?_, hcalls, ?_, ?_⟩, ?_, ?_⟩
    · show saveTombstone p.db now replica.pk = tombstoned db now (p.calls ++ [replica.pk])
      rw [hp.tombstones, saveTombstone_tombstoned]
    · intro pk hpk
      rcases List.mem_append.mp hpk with hpk | hpk
      · exact hp.confirmed pk hpk
      · exact ⟨replica, (mem_lockedReplicas.mp hcall.1).1, (List.mem_singleton.mp hpk).symm,
          result, hdelete⟩
    · intro k hk
      obtain ⟨copy, hcopy, hrev, hlogged⟩ := hp.completed k hk
      exact ⟨copy, hcopy, hrev, List.mem_append_left _ hlogged⟩
    · exact List.mem_append_right _ (List.mem_singleton.mpr rfl)
    · exact fun pk hpk => List.mem_append_left _ hpk

/-- The copies of one revision: all of them are in the log when the loop ends. -/
theorem outcome_deleteReplicas {p : Progress} {replicas : List RevisionReplica}
    (hp : InProgress server db target now p)
    (hall : ∀ replica ∈ replicas, CopyExpires db target now replica) :
    Outcome (fun q => InProgress server db target now q ∧ ∀ replica ∈ replicas, replica.pk ∈ q.calls)
      (fun e => CallsExpired db target now e.2.calls)
      (replicas.foldlM (deleteReplica server now) p) := by
  let inv (done : List RevisionReplica) (q : Progress) : Prop :=
    InProgress server db target now q ∧ ∀ replica ∈ done, replica.pk ∈ q.calls
  have hstep : ∀ done replica rest q, replicas = done ++ replica :: rest → inv done q →
      Outcome (inv (done ++ [replica])) (fun e => CallsExpired db target now e.2.calls)
        (deleteReplica server now q replica) := by
    intro done replica rest q hsplit hinv
    have hexpires := hall replica (by simp [hsplit])
    refine Outcome.mono (outcome_deleteReplica hinv.1 hexpires) ?_ (fun _ h => h)
    intro q' hq'
    refine ⟨hq'.1, ?_⟩
    intro copy hcopy
    rcases List.mem_append.mp hcopy with hcopy | hcopy
    · exact hq'.2.2 _ (hinv.2 copy hcopy)
    · rw [List.mem_singleton.mp hcopy]
      exact hq'.2.1
  have hstart : inv [] p := ⟨hp, fun _ h => absurd h List.not_mem_nil⟩
  exact outcome_foldlM_done hstep hstart

theorem outcome_expireRevision {p : Progress} {destination : BackupDestination}
    {revision : ConfigRevision} (hp : InProgress server db target now p)
    (hdest : destination ∈ lockedDestinations db target.pk)
    (hexpires : Expires db target now destination revision) :
    Outcome (InProgress server db target now) (fun e => CallsExpired db target now e.2.calls)
      (expireRevision server now (lockedReplicas db target.pk) destination.pk p revision.pk) := by
  unfold expireRevision
  dsimp only
  split
  · exact ⟨hp.tombstones, hp.expired, hp.confirmed, hp.completed⟩
  · rename_i hidle
    split
    · exact hp
    · rename_i hsome
      have hspec : ∀ replica ∈ (replicasByRevision (lockedReplicas db target.pk) destination.pk
          revision.pk).filter deletable, replica ∈ db.replicas ∧ replica.revision = revision.pk ∧
            CopyExpires db target now replica := by
        intro replica hreplica
        obtain ⟨hmem, hdel⟩ := List.mem_filter.mp hreplica
        obtain ⟨hlocked, hkeys⟩ := List.mem_filter.mp hmem
        simp only [Bool.and_eq_true, beq_iff_eq] at hkeys
        refine ⟨(mem_lockedReplicas.mp hlocked).1, hkeys.2, hlocked, hdel, destination, hdest,
          hkeys.1.symm, ?_, revision, hkeys.2.symm, hexpires⟩
        rw [hkeys.2]
        simpa using hidle
      obtain ⟨first, hfirst⟩ := List.exists_mem_of_ne_nil _
        (fun h => hsome (List.isEmpty_iff.mpr h))
      refine Outcome.bind (outcome_deleteReplicas hp (fun r hr => (hspec r hr).2.2)) ?_
      intro q ⟨hq, hlogged⟩
      refine ⟨hq.tombstones, hq.expired, hq.confirmed, ?_⟩
      intro k hk
      rcases List.mem_cons.mp (List.mem_dedup.mp hk) with heq | hk
      · exact ⟨first, (hspec first hfirst).1, (hspec first hfirst).2.1.trans heq.symm,
          hlogged first hfirst⟩
      · exact hq.completed k hk

theorem outcome_cleanDestination {p : Progress} {destination : BackupDestination}
    (hp : InProgress server db target now p) (hdest : destination ∈ lockedDestinations db target.pk)
    (hreached : Reached db target now destination) :
    Outcome (fun q => InProgress server db target now q ∧ raises db target now destination = false)
      (fun e => CallsExpired db target now e.2.calls)
      (cleanDestination server now db target p destination) := by
  unfold cleanDestination
  split
  · rename_i hdisabled
    exact ⟨hp, by simp [raises, by simpa using hdisabled]⟩
  · rename_i henabled
    cases hpolicyId : effectiveRemoteRetentionPolicyId target destination with
    | none => exact ⟨hp, by simp [raises, hpolicyId]⟩
    | some policyId =>
      cases hpolicy : db.remotePolicies.get? policyId with
      | none => simpa [hpolicy] using hp.expired
      | some policy =>
        simp only [hpolicy]
        cases hplan : buildRetentionPlan (settingsFromRemotePolicy policy)
            ((candidateRevisions db (lockedReplicas db target.pk) target.pk destination.pk).map
              revisionCandidate) [] now with
        | none => exact hp.expired
        | some plan =>
          have hwindow : daysBefore now policy.keepAllDays ≠ none := by
            have hsome := planRevisions_isSome_iff.mp
              (Option.isSome_of_eq_some (buildRetentionPlan_eq_some hplan))
            exact Option.isSome_iff_ne_none.mp hsome
          have heffective : effectivePolicy db target destination = some policy := by
            rw [effectivePolicy, hpolicyId]
            exact hpolicy
          have hquiet : raises db target now destination = false := by
            simp [raises, heffective, Option.isSome_iff_ne_none.mpr hwindow]
          have hcounted : InProgress server db target now
              { p with configuredPolicyCount := p.configuredPolicyCount + 1 } :=
            ⟨hp.tombstones, hp.expired, hp.confirmed, hp.completed⟩
          refine Outcome.mono (outcome_foldlM ?_ hcounted) (fun q hq => ⟨hq, hquiet⟩)
            (fun _ h => h)
          intro q k hk hq
          have hk := (server.order_perm _).mem_iff.mp hk
          obtain ⟨revision, hrevision, rfl, hkept⟩ := (mem_expired_plan hplan k).mp hk
          apply outcome_expireRevision hq hdest
          exact ⟨by simpa using henabled, hreached, hrevision, policy, heffective, hwindow, hkept⟩

theorem outcome_lockedDestinations :
    Outcome (InProgress server db target now) (fun e => CallsExpired db target now e.2.calls)
      ((lockedDestinations db target.pk).foldlM (cleanDestination server now db target)
        (Progress.start db)) := by
  let inv (done : List BackupDestination) (p : Progress) : Prop :=
    InProgress server db target now p ∧ ∀ d ∈ done, raises db target now d = false
  have hstep : ∀ done d rest p, lockedDestinations db target.pk = done ++ d :: rest →
      inv done p → Outcome (inv (done ++ [d])) (fun e => CallsExpired db target now e.2.calls)
        (cleanDestination server now db target p d) := by
    intro done d rest p hsplit hinv
    have hsorted : (done ++ d :: rest).Pairwise (fun a b => a.pk < b.pk) := by
      rw [← hsplit]
      exact db.destinations.sorted.filter _
    have hreached : Reached db target now d := by
      intro earlier hearlier hlt
      rw [hsplit] at hearlier
      rcases List.mem_append.mp hearlier with hdone | hrest
      · exact hinv.2 earlier hdone
      · rcases List.mem_cons.mp hrest with rfl | hrest
        · exact absurd hlt (lt_irrefl _)
        · have hafter := (List.pairwise_append.mp hsorted).2.1
          exact absurd hlt (Nat.lt_asymm ((List.pairwise_cons.mp hafter).1 earlier hrest))
    have hd : d ∈ lockedDestinations db target.pk := by simp [hsplit]
    refine Outcome.mono (outcome_cleanDestination hinv.1 hd hreached) ?_ (fun _ h => h)
    intro q hq
    refine ⟨hq.1, ?_⟩
    intro e he
    rcases List.mem_append.mp he with he | he
    · exact hinv.2 e he
    · rw [List.mem_singleton.mp he]
      exact hq.2
  have hstart : inv [] (Progress.start db) :=
    ⟨inProgress_start, fun _ h => absurd h List.not_mem_nil⟩
  exact Outcome.mono (outcome_foldlM_done hstep hstart) (fun _ h => h.1) (fun _ h => h)

end Progress

section Cleanup

variable {db : Database} {targetId : ℕ} {target : BackupTarget} {now : Instant} {server : Server}

/-- An unknown target or an active run stops the cleanup before any call. -/
theorem cleanup_refused
    (h : db.targets.get? targetId = none ∨ db.hasActiveRun targetId = true) :
    (executeRemoteRetentionCleanup server targetId now db).db = db ∧
      (executeRemoteRetentionCleanup server targetId now db).calls = [] := by
  unfold executeRemoteRetentionCleanup remoteRetentionTransaction
  cases htarget : db.targets.get? targetId with
  | none => exact ⟨rfl, rfl⟩
  | some target =>
    have hactive : db.hasActiveRun targetId = true := by
      rcases h with h | h
      · simp [h] at htarget
      · exact h
    simp [hactive, Progress.start]

/-- The commit removes revisions that own nothing once their copies are
tombstoned, among them one that the cleanup deleted. -/
def Committed (db : Database) (now : Instant) (out : CleanupOutcome) : Prop :=
  ∃ gone : ℕ → Bool, out.db = (tombstoned db now out.calls).deleteRevisions gone ∧
    ∀ k, gone k = true → ownsNothing (tombstoned db now out.calls) k = true ∧
      ∃ replica ∈ db.replicas, replica.revision = k ∧ replica.pk ∈ out.calls

theorem cleanup_spec (htarget : db.targets.get? targetId = some target)
    (hactive : db.hasActiveRun targetId = false) :
    CallsExpired db target now (executeRemoteRetentionCleanup server targetId now db).calls ∧
      ((executeRemoteRetentionCleanup server targetId now db).db = db ∨
        (Committed db now (executeRemoteRetentionCleanup server targetId now db) ∧
          Confirmed server db (executeRemoteRetentionCleanup server targetId now db).calls)) := by
  have hpk : target.pk = targetId := ((Table.get?_eq_some_iff _ _ _).mp htarget).2
  have hloop : Outcome (InProgress server db target now) (fun e => CallsExpired db target now e.2.calls)
      ((lockedDestinations db targetId).foldlM (cleanDestination server now db target)
        (Progress.start db)) := hpk ▸ outcome_lockedDestinations
  unfold executeRemoteRetentionCleanup remoteRetentionTransaction
  simp only [htarget, hactive, Bool.false_eq_true, if_false]
  generalize (lockedDestinations db targetId).foldlM (cleanDestination server now db target)
    (Progress.start db) = outcome at hloop
  cases outcome with
  | error e => exact ⟨hloop, Or.inl rfl⟩
  | ok p =>
    change InProgress server db target now p at hloop
    by_cases hcount : p.configuredPolicyCount = 0
    · simp only [bind, Except.bind, hcount, if_true]
      exact ⟨hloop.expired, Or.inl trivial⟩
    · simp only [bind, Except.bind, hcount, if_false, pure, Except.pure]
      refine ⟨hloop.expired, Or.inr ⟨⟨_, by rw [← hloop.tombstones], ?_⟩, hloop.confirmed⟩⟩
      intro k hk
      rw [← hloop.tombstones]
      have hk := List.mem_filter.mp (List.contains_iff_mem.mp hk)
      obtain ⟨hcompleted, howns⟩ := Bool.and_eq_true_iff.mp hk.2
      exact ⟨howns, hloop.completed k (List.contains_iff_mem.mp hcompleted)⟩

end Cleanup

section Willing

variable {db : Database} {target : BackupTarget} {now : Instant} {server : Server} {pk : ℕ}

/-- A remote storage that confirms every deletion. -/
def willing : Server where
  delete _ := .ok ⟨0, 0, 0, false⟩
  order ids := ids
  order_perm ids := List.Perm.refl ids

/-- A logged call stays in the log, also when the step raises. -/
abbrev Logged (pk : ℕ) : Except (Failure × Progress) Progress → Prop :=
  Outcome (fun q => pk ∈ q.calls) (fun e => pk ∈ e.2.calls)

theorem logged_deleteReplica {p : Progress} {replica : RevisionReplica}
    (h : pk ∈ p.calls ∨ pk = replica.pk) : Logged pk (deleteReplica server now p replica) := by
  have hlog : pk ∈ p.calls ++ [replica.pk] := by
    rcases h with h | h
    · exact List.mem_append_left _ h
    · rw [h]
      exact List.mem_append_right _ (List.mem_singleton.mpr rfl)
  unfold deleteReplica
  cases server.delete replica with
  | error failure => exact hlog
  | ok result => exact hlog

theorem logged_expireRevision {p : Progress} {locked : List RevisionReplica}
    {destinationId revisionId : ℕ} (h : pk ∈ p.calls) :
    Logged pk (expireRevision server now locked destinationId p revisionId) := by
  unfold expireRevision
  dsimp only
  split
  · exact h
  · split
    · exact h
    · refine Outcome.bind (outcome_foldlM ?_ h) (fun q hq => hq)
      intro q replica _ hq
      exact logged_deleteReplica (Or.inl hq)

theorem logged_cleanDestination {p : Progress} {destination : BackupDestination}
    (h : pk ∈ p.calls) : Logged pk (cleanDestination server now db target p destination) := by
  unfold cleanDestination
  split
  · exact h
  · cases hpolicyId : effectiveRemoteRetentionPolicyId target destination with
    | none => exact h
    | some policyId =>
      cases hpolicy : db.remotePolicies.get? policyId with
      | none => simpa [hpolicy] using h
      | some policy =>
        simp only [hpolicy]
        cases buildRetentionPlan (settingsFromRemotePolicy policy)
            ((candidateRevisions db (lockedReplicas db target.pk) target.pk destination.pk).map
              revisionCandidate) [] now with
        | none => exact h
        | some plan => exact outcome_foldlM (fun q k _ hq => logged_expireRevision hq) h

/-- The step returns. -/
abbrev Returns : Except (Failure × Progress) Progress → Prop :=
  Outcome (fun _ => True) (fun _ => False)

theorem returns_deleteReplica (p : Progress) (replica : RevisionReplica) :
    Returns (deleteReplica willing now p replica) := trivial

theorem returns_expireRevision {p : Progress} {locked : List RevisionReplica}
    {destinationId revisionId : ℕ} :
    Returns (expireRevision willing now locked destinationId p revisionId) := by
  unfold expireRevision
  dsimp only
  split
  · trivial
  · split
    · trivial
    · have hloop : Returns ((List.filter deletable
          (replicasByRevision locked destinationId revisionId)).foldlM (deleteReplica willing now)
          p) := outcome_foldlM (fun q replica _ _ => returns_deleteReplica q replica) trivial
      exact Outcome.bind hloop (fun _ _ => trivial)

theorem buildRetentionPlan_isSome (settings : RetentionSettings)
    (revisions : List RevisionCandidate)
    (h : daysBefore now settings.keepAllDays ≠ none) :
    ∃ plan, buildRetentionPlan settings revisions [] now = some plan := by
  have hsome : (planRevisions settings revisions now).isSome :=
    planRevisions_isSome_iff.mpr (Option.isSome_iff_ne_none.mpr h)
  obtain ⟨decisions, hdecisions⟩ := Option.isSome_iff_exists.mp hsome
  exact ⟨⟨now, decisions, []⟩, by
    simp [buildRetentionPlan, hdecisions, planRuns, decideRuns, newestFirst]⟩

theorem returns_cleanDestination {p : Progress} {destination : BackupDestination}
    (hquiet : raises db target now destination = false) :
    Returns (cleanDestination willing now db target p destination) := by
  unfold cleanDestination
  split
  · trivial
  · rename_i henabled
    have henabled : destination.enabled = true := by simpa using henabled
    cases hpolicyId : effectiveRemoteRetentionPolicyId target destination with
    | none => trivial
    | some policyId =>
      simp only [raises, henabled, hpolicyId, effectivePolicy, Option.isSome_some, Bool.and_true,
        Bool.true_and, Option.bind_some] at hquiet
      cases hpolicy : db.remotePolicies.get? policyId with
      | none => simp [hpolicy] at hquiet
      | some policy =>
        have hwindow : daysBefore now (settingsFromRemotePolicy policy).keepAllDays ≠ none := by
          intro hnone
          have hnone : daysBefore now policy.keepAllDays = none := hnone
          simp [hpolicy, hnone] at hquiet
        simp only [hpolicy]
        obtain ⟨plan, hplan⟩ := buildRetentionPlan_isSome (settingsFromRemotePolicy policy)
          ((candidateRevisions db (lockedReplicas db target.pk) target.pk destination.pk).map
            revisionCandidate) hwindow
        rw [hplan]
        exact outcome_foldlM (fun q k _ _ => returns_expireRevision) trivial

variable {destination : BackupDestination} {revision : ConfigRevision}
  {replica : RevisionReplica}

/-- The turn of an expired revision calls the deletion of each deletable copy. -/
theorem logged_expireRevision_of_mem {p : Progress}
    (hlocked : replica ∈ lockedReplicas db target.pk)
    (hdest : replica.destination = destination.pk) (hrev : replica.revision = revision.pk)
    (hdel : deletable replica = true)
    (hidle : (replicasByRevision (lockedReplicas db target.pk) destination.pk revision.pk).any
      transferPending = false) :
    Logged replica.pk
      (expireRevision willing now (lockedReplicas db target.pk) destination.pk p revision.pk) := by
  have hmem : replica ∈ (replicasByRevision (lockedReplicas db target.pk) destination.pk
      revision.pk).filter deletable := by
    simp [replicasByRevision, hlocked, hdest, hrev, hdel]
  obtain ⟨pre, post, hsplit⟩ := List.append_of_mem hmem
  unfold expireRevision
  dsimp only
  rw [if_neg (by simp [hidle]), hsplit, if_neg (by simp)]
  refine Outcome.bind (outcome_foldlM_of_mem (fun _ => True) ?_ ?_ ?_ trivial)
    (fun q hq => hq)
  · exact fun q b _ _ => returns_deleteReplica q b
  · exact fun q _ => logged_deleteReplica (Or.inr rfl)
  · exact fun q b _ hq => logged_deleteReplica (Or.inl hq)

/-- The turn of a storage whose plan expires the revision makes that call. -/
theorem logged_cleanDestination_of_expires {p : Progress}
    (hlocked : replica ∈ lockedReplicas db target.pk)
    (hdest : replica.destination = destination.pk) (hrev : replica.revision = revision.pk)
    (hdel : deletable replica = true)
    (hidle : (replicasByRevision (lockedReplicas db target.pk) destination.pk revision.pk).any
      transferPending = false)
    (hexpires : Expires db target now destination revision) :
    Logged replica.pk (cleanDestination willing now db target p destination) := by
  obtain ⟨henabled, _, hrecorded, policy, heffective, hwindow, hkept⟩ := hexpires
  have hpolicy := heffective
  unfold effectivePolicy at hpolicy
  obtain ⟨policyId, hpolicyId, hpolicy⟩ := Option.bind_eq_some_iff.mp hpolicy
  obtain ⟨plan, hplan⟩ := buildRetentionPlan_isSome (settingsFromRemotePolicy policy)
    ((candidateRevisions db (lockedReplicas db target.pk) target.pk destination.pk).map
      revisionCandidate) hwindow
  have hexpired : revision.pk ∈ expired plan.revisionDecisions :=
    (mem_expired_plan hplan revision.pk).mpr ⟨revision, hrecorded, rfl, hkept⟩
  obtain ⟨pre, post, hsplit⟩ := List.append_of_mem hexpired
  unfold cleanDestination
  rw [if_neg (by simp [henabled])]
  simp only [hpolicyId, hpolicy, hplan, willing, hsplit]
  refine outcome_foldlM_of_mem (fun _ => True) ?_ ?_ ?_ trivial
  · exact fun q b _ _ => returns_expireRevision
  · exact fun q _ => logged_expireRevision_of_mem hlocked hdest hrev hdel hidle
  · exact fun q b _ hq => logged_expireRevision hq

/-- An expired copy on a storage the loop reaches is deleted by a willing server. -/
theorem called_of_expires {targetId : ℕ} (htarget : db.targets.get? targetId = some target)
    (hactive : db.hasActiveRun targetId = false)
    (hlocked : replica ∈ lockedReplicas db target.pk)
    (hvisited : destination ∈ lockedDestinations db target.pk)
    (hdest : replica.destination = destination.pk) (hrev : replica.revision = revision.pk)
    (hdel : deletable replica = true)
    (hidle : (replicasByRevision (lockedReplicas db target.pk) destination.pk revision.pk).any
      transferPending = false)
    (hexpires : Expires db target now destination revision) :
    replica.pk ∈ (executeRemoteRetentionCleanup willing targetId now db).calls := by
  have hpk : target.pk = targetId := ((Table.get?_eq_some_iff _ _ _).mp htarget).2
  obtain ⟨pre, post, hsplit⟩ := List.append_of_mem hvisited
  have hloop : Logged replica.pk ((lockedDestinations db target.pk).foldlM
      (cleanDestination willing now db target) (Progress.start db)) := by
    rw [hsplit]
    refine outcome_foldlM_of_mem (fun _ => True) ?_ ?_ ?_ trivial
    · intro q earlier hearlier _
      apply returns_cleanDestination
      apply hexpires.2.1 earlier (by rw [hsplit]; exact List.mem_append_left _ hearlier)
      have hsorted : (pre ++ destination :: post).Pairwise (fun a b => a.pk < b.pk) := by
        rw [← hsplit]
        exact db.destinations.sorted.filter _
      exact (List.pairwise_append.mp hsorted).2.2 earlier hearlier destination
        List.mem_cons_self
    · exact fun q _ => logged_cleanDestination_of_expires hlocked hdest hrev hdel hidle hexpires
    · exact fun q b _ hq => logged_cleanDestination hq
  rw [hpk] at hloop
  unfold executeRemoteRetentionCleanup remoteRetentionTransaction
  simp only [htarget, hactive, Bool.false_eq_true, if_false]
  generalize (lockedDestinations db targetId).foldlM (cleanDestination willing now db target)
    (Progress.start db) = outcome at hloop
  cases outcome with
  | error e => exact hloop
  | ok p =>
    change replica.pk ∈ p.calls at hloop
    by_cases hcount : p.configuredPolicyCount = 0
    · simpa only [bind, Except.bind, hcount, if_true] using hloop
    · simpa only [bind, Except.bind, hcount, if_false, pure, Except.pure] using hloop

end Willing

end ConfigBackup.RemoteCleanup
