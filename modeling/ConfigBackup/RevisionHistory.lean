import ConfigBackup.LinkedHistory
import ConfigBackup.RemoteCleanup
import ConfigBackup.Repository
import ConfigBackup.RevisionDeletion

/-!
A target's revision rows seen as a linked history. The three deletion engines
and the commit change this history by an append, a relink over the revisions
that keep their local files, or a removal; everything else leaves it alone.
-/

namespace ConfigBackup.RevisionHistory

open Calendar LinkedHistory LocalRetention Models NewestFirst RemoteCleanup RemoteRetention
  Repository RevisionChain RevisionDeletion Tables

def entryOf (db : Database) (r : ConfigRevision) : Entry Instant :=
  ⟨r.created, r.previousRevision, db.locallyAvailable r.pk⟩

def historyOf (db : Database) (targetId : ℕ) : History Instant where
  entry k := ((db.revisions.get? k).filter (fun r => r.target == targetId)).map (entryOf db)
  last := (db.targets.get? targetId).bind (fun t => t.lastRevision)

variable {db : Database} {targetId : ℕ}

theorem entry_historyOf {k : ℕ} {e : Entry Instant} :
    (historyOf db targetId).entry k = some e ↔
      ∃ r ∈ db.revisions, r.pk = k ∧ r.target = targetId ∧ entryOf db r = e := by
  unfold historyOf
  simp only [Option.map_eq_some_iff, Option.filter_eq_some_iff, Table.get?_eq_some_iff,
    beq_iff_eq]
  constructor
  · intro ⟨r, ⟨⟨hmem, hk⟩, htarget⟩, he⟩
    exact ⟨r, hmem, hk, htarget, he⟩
  · intro ⟨r, hmem, hk, htarget, he⟩
    exact ⟨r, ⟨⟨hmem, hk⟩, htarget⟩, he⟩

theorem entry_of_mem {r : ConfigRevision} (hr : r ∈ db.revisions) (htarget : r.target = targetId) :
    (historyOf db targetId).entry r.pk = some (entryOf db r) :=
  entry_historyOf.mpr ⟨r, hr, rfl, htarget, rfl⟩

theorem isSome_entry_iff {k : ℕ} : ((historyOf db targetId).entry k).isSome ↔
    ∃ r ∈ db.revisions, r.pk = k ∧ r.target = targetId := by
  rw [Option.isSome_iff_exists]
  constructor
  · intro ⟨e, he⟩
    obtain ⟨r, hr, hk, htarget, _⟩ := entry_historyOf.mp he
    exact ⟨r, hr, hk, htarget⟩
  · intro ⟨r, hr, hk, htarget⟩
    exact ⟨_, entry_historyOf.mpr ⟨r, hr, hk, htarget, rfl⟩⟩

theorem mem_targetRevisions {r : ConfigRevision} :
    r ∈ db.targetRevisions targetId ↔ r ∈ db.revisions ∧ r.target = targetId := by
  unfold Database.targetRevisions
  simp [Table.mem_iff]

theorem targetRevisions_keys :
    (db.targetRevisions targetId).Pairwise (fun a b => a.pk ≠ b.pk) := by
  refine List.Pairwise.filter _ (db.revisions.sorted.imp ?_)
  intro a b hab
  exact Nat.ne_of_lt hab

/-- Earlier in the history means older. -/
theorem precedes_iff_older {r s : ConfigRevision} (hr : r ∈ db.revisions)
    (hs : s ∈ db.revisions) (hrt : r.target = targetId) (hst : s.target = targetId) :
    (historyOf db targetId).Precedes r.pk s.pk ↔ older r s := by
  unfold History.Precedes
  rw [entry_of_mem hr hrt, entry_of_mem hs hst]
  constructor
  · intro ⟨a, b, ha, hb, hlt⟩
    rw [Option.some.injEq] at ha hb
    subst ha hb
    exact hlt
  · intro hlt
    exact ⟨_, _, rfl, rfl, hlt⟩

theorem locallyAvailable_iff {k : ℕ} : db.locallyAvailable k = true ↔
    ∃ a ∈ db.artifacts, a.revision = k ∧ a.localAvailable = true := by
  unfold Database.locallyAvailable Database.artifactsOf
  simp [Table.mem_iff]

section Deletion

variable {gone : ℕ → Bool}

theorem locallyAvailable_deleteRevisions {k : ℕ} (hk : gone k = false) :
    (db.deleteRevisions gone).locallyAvailable k = db.locallyAvailable k := by
  rw [Bool.eq_iff_iff, locallyAvailable_iff, locallyAvailable_iff]
  simp only [Database.deleteRevisions, Table.mem_filter]
  constructor
  · intro ⟨a, ⟨ha, _⟩, hrev, havail⟩
    exact ⟨a, ha, hrev, havail⟩
  · intro ⟨a, ha, hrev, havail⟩
    exact ⟨a, ⟨ha, by simp [hrev, hk]⟩, hrev, havail⟩

theorem historyOf_deleteRevisions :
    historyOf (db.deleteRevisions gone) targetId = (historyOf db targetId).remove gone := by
  have hentry : (historyOf (db.deleteRevisions gone) targetId).entry =
      ((historyOf db targetId).remove gone).entry := by
    funext k
    unfold historyOf History.remove
    dsimp only
    rw [Database.get?_deleteRevisions]
    cases hget : db.revisions.get? k with
    | none => simp
    | some r =>
      have hk : r.pk = k := ((Table.get?_eq_some_iff _ _ _).mp hget).2
      subst hk
      cases hgone : gone r.pk with
      | true => simp [Option.filter_some, hgone]
      | false =>
        by_cases htarget : r.target = targetId
        · simp [Option.filter_some, hgone, htarget, entryOf,
            locallyAvailable_deleteRevisions hgone]
        · simp [Option.filter_some, hgone, htarget]
  have hlast : (historyOf (db.deleteRevisions gone) targetId).last =
      ((historyOf db targetId).remove gone).last := by
    unfold historyOf History.remove Database.deleteRevisions
    dsimp only
    rw [Table.get?_map]
    cases db.targets.get? targetId <;> rfl
  generalize historyOf (db.deleteRevisions gone) targetId = h at hentry hlast
  generalize (historyOf db targetId).remove gone = h' at hentry hlast
  cases h
  cases h'
  simp only at hentry hlast
  rw [hentry, hlast]

end Deletion

section Relinking

variable {revisions : List ConfigRevision} {deleted : ℕ → Bool}

theorem relink_artifacts :
    (relinkKeptRevisions db targetId revisions deleted).artifacts = db.artifacts := by
  obtain ⟨rows, last, h⟩ := @relink_frame db targetId revisions deleted
  rw [h]
  rfl

theorem relink_locallyAvailable (k : ℕ) :
    (relinkKeptRevisions db targetId revisions deleted).locallyAvailable k =
      db.locallyAvailable k := by
  unfold Database.locallyAvailable Database.artifactsOf
  rw [relink_artifacts]

/-- The revisions that the relinking keeps, by key. -/
def KeptKey (revisions : List ConfigRevision) (deleted : ℕ → Bool) (k : ℕ) : Prop :=
  ∃ r ∈ revisions, r.pk = k ∧ deleted r.pk = false

/-- Relinking all revisions of the target changes links and nothing else. -/
theorem get?_relink (hkeys : revisions.Pairwise (fun a b => a.pk ≠ b.pk)) (k : ℕ) :
    ∃ f : ConfigRevision → ConfigRevision,
      (relinkKeptRevisions db targetId revisions deleted).revisions.get? k =
        (db.revisions.get? k).map f ∧ ∀ r, ∃ link, f r = withPrevious link r := by
  by_cases hkept : KeptKey revisions deleted k
  · obtain ⟨r, hr, hk, hdeleted⟩ := hkept
    obtain ⟨link, hget, _⟩ := @relink_kept db targetId _ _ hkeys r hr hdeleted
    exact ⟨withPrevious link, by rw [← hk, hget], fun r => ⟨link, rfl⟩⟩
  · refine ⟨id, ?_, fun r => ⟨r.previousRevision, rfl⟩⟩
    rw [relink_other, Option.map_id_fun, id]
    intro r hr hk
    by_contra hdeleted
    exact hkept ⟨r, hr, hk, by simpa [hk] using hdeleted⟩

theorem relinked_historyOf (hkeys : revisions.Pairwise (fun a b => a.pk ≠ b.pk))
    (hrows : ∀ r, r ∈ revisions ↔ r ∈ db.revisions ∧ r.target = targetId)
    (htarget : (db.targets.get? targetId).isSome) :
    History.Relinked (KeptKey revisions deleted) (historyOf db targetId)
      (historyOf (relinkKeptRevisions db targetId revisions deleted) targetId) := by
  have hkept : ∀ r ∈ revisions, deleted r.pk = false → ∃ link,
      (historyOf (relinkKeptRevisions db targetId revisions deleted) targetId).entry r.pk =
        some ⟨r.created, link, db.locallyAvailable r.pk⟩ ∧
      ((link = none ∧ ∀ s ∈ revisions, deleted s.pk = false → ¬ older s r) ∨
        ∃ p ∈ revisions, deleted p.pk = false ∧ link = some p.pk ∧ older p r) := by
    intro r hr hdeleted
    obtain ⟨link, hget, hcases⟩ := @relink_kept db targetId _ _ hkeys r hr hdeleted
    refine ⟨link, ?_, hcases⟩
    obtain ⟨hmem, hrt⟩ := (hrows r).mp hr
    rw [db.revisions.get?_of_mem hmem, Option.map_some, Table.get?_eq_some_iff] at hget
    exact entry_historyOf.mpr ⟨_, hget.1, rfl, hrt, by
      simp [entryOf, withPrevious, relink_locallyAvailable]⟩
  refine { stamps := ?_, exist := ?_, others := ?_, links := ?_, linked := ?_, last := ?_ }
  · intro k
    obtain ⟨f, hget, hf⟩ := @get?_relink db targetId _ deleted hkeys k
    unfold historyOf
    dsimp only
    rw [hget]
    cases db.revisions.get? k with
    | none => rfl
    | some r =>
      obtain ⟨link, hlink⟩ := hf r
      by_cases hrt : r.target = targetId
      · simp [Option.filter_some, hlink, withPrevious, hrt, entryOf]
      · simp [Option.filter_some, hlink, withPrevious, hrt]
  · intro k ⟨r, hr, hk, _⟩
    exact isSome_entry_iff.mpr ⟨r, ((hrows r).mp hr).1, hk, ((hrows r).mp hr).2⟩
  · intro k p hk ⟨e, he, hp⟩
    obtain ⟨r, hr, hrk, hrt, hre⟩ := entry_historyOf.mp he
    have hsame : (relinkKeptRevisions db targetId revisions deleted).revisions.get? k =
        db.revisions.get? k := by
      apply relink_other
      intro s hs hsk
      by_contra hdeleted
      exact hk ⟨s, hs, hsk, by simpa [hsk] using hdeleted⟩
    have hget := (Table.get?_eq_some_iff _ _ _).mpr ⟨hr, hrk⟩
    rw [hsame, Table.get?_eq_some_iff] at hget
    refine ⟨_, entry_historyOf.mpr ⟨r, hget.1, hrk, hrt, rfl⟩, ?_⟩
    rw [← hp, ← hre]
    rfl
  · intro k p ⟨r, hr, hk, hdeleted⟩ ⟨e, he, hp⟩
    subst hk
    obtain ⟨link, hentry, hcases⟩ := hkept r hr hdeleted
    rw [hentry, Option.some.injEq] at he
    subst he
    rcases hcases with ⟨hnone, _⟩ | ⟨q, hq, hqdeleted, hlink, hqr⟩
    · rw [hnone] at hp
      cases hp
    · have hqp : q.pk = p := Option.some.inj (hlink.symm.trans hp)
      subst hqp
      refine ⟨⟨q, hq, rfl, hqdeleted⟩, ?_⟩
      exact (precedes_iff_older ((hrows q).mp hq).1 ((hrows r).mp hr).1 ((hrows q).mp hq).2
        ((hrows r).mp hr).2).mpr hqr
  · intro k ⟨r, hr, hk, hdeleted⟩ ⟨j, ⟨s, hs, hj, hsdeleted⟩, hjk⟩
    subst hk hj
    have hold := (precedes_iff_older ((hrows s).mp hs).1 ((hrows r).mp hr).1
      ((hrows s).mp hs).2 ((hrows r).mp hr).2).mp hjk
    obtain ⟨link, hentry, hcases⟩ := hkept r hr hdeleted
    rcases hcases with ⟨_, hnone⟩ | ⟨q, _, _, hlink, _⟩
    · exact absurd hold (hnone s hs hsdeleted)
    · exact ⟨q.pk, _, hentry, hlink⟩
  · intro k ⟨r, hr, hk, hdeleted⟩
    obtain ⟨last, htargets, hcases⟩ := @relink_last db targetId revisions deleted hkeys
    obtain ⟨target, htarget⟩ := Option.isSome_iff_exists.mp htarget
    have hlast : (historyOf (relinkKeptRevisions db targetId revisions deleted) targetId).last =
        last := by
      unfold historyOf
      dsimp only
      rw [htargets, htarget]
      rfl
    rcases hcases with ⟨_, hall⟩ | ⟨q, hq, hqdeleted, hqlast, hnewest⟩
    · rw [hall r hr] at hdeleted
      cases hdeleted
    · refine ⟨q.pk, hlast.trans hqlast, ⟨q, hq, rfl, hqdeleted⟩, ?_⟩
      intro j ⟨s, hs, hj, hsdeleted⟩ hqs
      subst hj
      apply hnewest s hs hsdeleted
      exact (precedes_iff_older ((hrows q).mp hq).1 ((hrows s).mp hs).1 ((hrows q).mp hq).2
        ((hrows s).mp hs).2).mp hqs

/-- Availability in the history is availability of the revision's files. -/
theorem available_historyOf {k : ℕ} : (historyOf db targetId).Available k ↔
    (∃ r ∈ db.revisions, r.pk = k ∧ r.target = targetId) ∧ db.locallyAvailable k = true := by
  unfold History.Available
  simp only [entry_historyOf]
  constructor
  · intro ⟨e, ⟨r, hr, hk, htarget, he⟩, havail⟩
    subst he hk
    exact ⟨⟨r, hr, rfl, htarget⟩, havail⟩
  · intro ⟨⟨r, hr, hk, htarget⟩, havail⟩
    subst hk
    exact ⟨_, ⟨r, hr, rfl, htarget, rfl⟩, havail⟩

theorem available_relink {k : ℕ} (hkeys : revisions.Pairwise (fun a b => a.pk ≠ b.pk)) :
    (historyOf (relinkKeptRevisions db targetId revisions deleted) targetId).Available k ↔
      (historyOf db targetId).Available k := by
  simp only [available_historyOf, relink_locallyAvailable]
  obtain ⟨f, hget, hf⟩ := @get?_relink db targetId revisions deleted hkeys k
  refine and_congr_left (fun _ => ?_)
  constructor
  · intro ⟨r, hr, hk, htarget⟩
    rw [(Table.get?_eq_some_iff _ _ _).mpr ⟨hr, hk⟩] at hget
    obtain ⟨s, hs, hsr⟩ := Option.map_eq_some_iff.mp hget.symm
    obtain ⟨link, hlink⟩ := hf s
    obtain ⟨hs, hsk⟩ := (Table.get?_eq_some_iff _ _ _).mp hs
    refine ⟨s, hs, hsk, ?_⟩
    rw [← htarget, ← hsr, hlink]
    rfl
  · intro ⟨s, hs, hk, htarget⟩
    rw [(Table.get?_eq_some_iff _ _ _).mpr ⟨hs, hk⟩, Option.map_some,
      Table.get?_eq_some_iff] at hget
    obtain ⟨link, hlink⟩ := hf s
    refine ⟨f s, hget.1, hget.2, ?_⟩
    rw [hlink]
    exact htarget

end Relinking

section Engines

/-- Removing a revision everywhere relinks all other revisions of its target. -/
theorem wellLinked_removeRevision {revisionId : ℕ} (hw : (historyOf db targetId).WellLinked)
    (htarget : (db.targets.get? targetId).isSome) :
    (historyOf (removeRevision db targetId revisionId) targetId).WellLinked := by
  unfold removeRevision
  rw [historyOf_deleteRevisions]
  refine (relinked_historyOf targetRevisions_keys (fun r => mem_targetRevisions)
    htarget).wellLinked hw.back ?_ ?_ (Or.inr ?_)
  · intro k ⟨r, _, hk, hkept⟩
    rw [← hk]
    exact hkept
  · intro k havail hkept
    rw [available_relink targetRevisions_keys, available_historyOf] at havail
    obtain ⟨⟨r, hr, hk, hrt⟩, _⟩ := havail
    exact ⟨r, mem_targetRevisions.mpr ⟨hr, hrt⟩, hk, by rw [hk]; exact hkept⟩
  · intro k hsome hkept
    obtain ⟨r, hr, hk, hrt⟩ := isSome_entry_iff.mp hsome
    exact ⟨r, mem_targetRevisions.mpr ⟨hr, hrt⟩, hk, by rw [hk]; exact hkept⟩

variable {now : Instant} {revisionIds : List ℕ}

theorem locallyAvailable_markUnavailable (k : ℕ) :
    (markUnavailable db now revisionIds).locallyAvailable k = true ↔
      db.locallyAvailable k = true ∧ revisionIds.contains k = false := by
  simp only [locallyAvailable_iff, markUnavailable, Table.mem_map]
  constructor
  · intro ⟨a, ⟨b, hb, hba⟩, hrev, havail⟩
    by_cases hgone : (revisionIds.contains b.revision && b.localAvailable) = true
    · rw [if_pos hgone] at hba
      rw [← hba] at havail
      cases havail
    · rw [if_neg hgone] at hba
      subst hba
      refine ⟨⟨b, hb, hrev, havail⟩, ?_⟩
      simpa [havail, hrev] using hgone
  · intro ⟨⟨a, ha, hrev, havail⟩, hgone⟩
    refine ⟨a, ⟨a, ha, ?_⟩, hrev, havail⟩
    rw [if_neg (by rw [hrev, hgone]; simp)]

theorem applyRetention_eq {runIds : List ℕ} : ∃ gone : ℕ → Bool,
    (∀ k, gone k = true → revisionIds.contains k = true) ∧
    historyOf (applyRetention db now targetId revisionIds runIds) targetId =
      (historyOf (relinkKeptRevisions (markUnavailable db now revisionIds) targetId
        (newestFirst ConfigRevision.newer (db.targetRevisions targetId))
        (fun pk => revisionIds.contains pk || !db.locallyAvailable pk)) targetId).remove gone := by
  refine ⟨_, ?_, historyOf_deleteRevisions⟩
  intro k hk
  exact List.contains_iff_mem.mpr (List.mem_of_mem_filter (List.contains_iff_mem.mp hk))

/-- Local retention relinks the revisions that keep their local files. -/
theorem wellLinked_applyRetention {runIds : List ℕ} (hw : (historyOf db targetId).WellLinked)
    (htarget : (db.targets.get? targetId).isSome) :
    (historyOf (applyRetention db now targetId revisionIds runIds) targetId).WellLinked := by
  obtain ⟨gone, hgone, heq⟩ := @applyRetention_eq db targetId now revisionIds runIds
  have hkeys : (newestFirst ConfigRevision.newer (db.targetRevisions targetId)).Pairwise
      (fun a b => a.pk ≠ b.pk) :=
    ((newestFirst_perm _).pairwise_iff (fun h => Ne.symm h)).mpr targetRevisions_keys
  have hrows : ∀ r, r ∈ newestFirst ConfigRevision.newer (db.targetRevisions targetId) ↔
      r ∈ (markUnavailable db now revisionIds).revisions ∧ r.target = targetId :=
    fun r => mem_newestFirst.trans mem_targetRevisions
  have hback : ∀ k p, (historyOf (markUnavailable db now revisionIds) targetId).PointsTo k p →
      (historyOf (markUnavailable db now revisionIds) targetId).Precedes p k := by
    intro k p ⟨e, he, hp⟩
    obtain ⟨r, hr, hk, hrt, hre⟩ := entry_historyOf.mp he
    subst hre
    obtain ⟨a, b, ha, hb, hlt⟩ :=
      hw.back k p ⟨_, entry_historyOf.mpr ⟨r, hr, hk, hrt, rfl⟩, hp⟩
    obtain ⟨s, hs, hsk, hst, hsa⟩ := entry_historyOf.mp ha
    obtain ⟨u, hu, huk, hut, hub⟩ := entry_historyOf.mp hb
    subst hsa hub
    exact ⟨_, _, entry_historyOf.mpr ⟨s, hs, hsk, hst, rfl⟩,
      entry_historyOf.mpr ⟨u, hu, huk, hut, rfl⟩, hlt⟩
  rw [heq]
  refine (relinked_historyOf hkeys hrows htarget).wellLinked hback ?_ ?_ (Or.inl ?_)
  · intro k ⟨r, _, hk, hkept⟩
    subst hk
    by_contra hdeleted
    have hexpired := hgone r.pk (by simpa using hdeleted)
    dsimp only at hkept
    rw [hexpired] at hkept
    cases hkept
  · intro k havail _
    rw [available_relink hkeys, available_historyOf, locallyAvailable_markUnavailable] at havail
    obtain ⟨⟨r, hr, hk, hrt⟩, hlocal, hkept⟩ := havail
    refine ⟨r, (hrows r).mpr ⟨hr, hrt⟩, hk, ?_⟩
    dsimp only
    rw [hk, hlocal, hkept]
    rfl
  · intro k ⟨r, hr, hk, hkept⟩
    rw [available_relink hkeys, available_historyOf, locallyAvailable_markUnavailable]
    obtain ⟨hr, hrt⟩ := (hrows r).mp hr
    simp only [Bool.or_eq_false_iff, Bool.not_eq_false'] at hkept
    rw [hk] at hkept
    exact ⟨⟨r, hr, hk, hrt⟩, hkept.2, hkept.1⟩

theorem historyOf_tombstoned {calls : List ℕ} :
    historyOf (tombstoned db now calls) targetId = historyOf db targetId := rfl

end Engines

section Commit

theorem createArtifacts_other {artifacts : Table ConfigArtifact ConfigArtifact.pk}
    {revisionId : ℕ} {records : List StoredArtifactRecord} {a : ConfigArtifact}
    (ha : a.revision ≠ revisionId) :
    a ∈ createArtifacts artifacts revisionId records ↔ a ∈ artifacts := by
  induction records generalizing artifacts with
  | nil => rfl
  | cons record rest ih =>
    unfold createArtifacts at ih ⊢
    rw [List.foldl_cons, ih, Table.mem_insert]
    refine or_iff_left ?_
    intro heq
    exact ha (by rw [heq]; rfl)

/-- A commit whose time stamp is not earlier than any other one appends the
newest revision, linked to a latest one. -/
theorem appended_commitRevision {scheduler : Scheduler} {db' : Database} {runId : ℕ}
    {run : BackupRun} {previous : Option ConfigRevision} {commit : RevisionCommit}
    (hrun : db.runs.get? runId = some run) (hlatest : isLatest db run.target previous = true)
    (hclock : ∀ r ∈ db.revisions, r.target = run.target → r.created ≤ commit.created)
    (h : commitRevision scheduler db runId previous commit = some db') :
    ∃ new, History.Appended (historyOf db run.target) (historyOf db' run.target)
      db.revisions.next new := by
  obtain ⟨run', target, hrun', htarget, hdb⟩ := commitRevision_eq_some h
  rw [hrun, Option.some.injEq] at hrun'
  subst hrun'
  have htargetKey : target.pk = run.target := ((Table.get?_eq_some_iff _ _ _).mp htarget).2
  have hrevisions : db'.revisions = db.revisions.insert
      (newRevision target.pk commit (previous.map (fun r => r.pk))) (newRevision_pk _ _ _) := by
    rw [hdb]
  have hartifacts : db'.artifacts =
      createArtifacts db.artifacts db.revisions.next commit.artifacts := by
    rw [hdb]
  have htargets : db'.targets.get? run.target = some (markTargetSuccess scheduler target
      (some db.revisions.next) commit.finishedAt commit.contentChanged) := by
    rw [hdb]
    dsimp only
    rw [Table.get?_update, if_pos htargetKey.symm, htarget]
    rfl
  have havailable : ∀ k, k ≠ db.revisions.next →
      db'.locallyAvailable k = db.locallyAvailable k := by
    intro k hk
    rw [Bool.eq_iff_iff, locallyAvailable_iff, locallyAvailable_iff, hartifacts]
    constructor
    · intro ⟨a, ha, hrev, havail⟩
      exact ⟨a, (createArtifacts_other (hrev ▸ hk)).mp ha, hrev, havail⟩
    · intro ⟨a, ha, hrev, havail⟩
      exact ⟨a, (createArtifacts_other (hrev ▸ hk)).mpr ha, hrev, havail⟩
  refine ⟨⟨commit.created, previous.map (fun r => r.pk),
    db'.locallyAvailable db.revisions.next⟩, ?_⟩
  have hfresh : (historyOf db run.target).entry db.revisions.next = none := by
    unfold historyOf
    dsimp only
    rw [Table.get?_next]
    rfl
  refine { fresh := hfresh, entries := ?_, later := ?_, link := ?_, unlinked := ?_, last := ?_ }
  · intro k
    unfold historyOf
    dsimp only
    rw [hrevisions, Table.get?_insert]
    by_cases hk : k = db.revisions.next
    · rw [if_pos hk, if_pos hk]
      simp [Option.filter_some, newRevision, htargetKey, entryOf]
    · rw [if_neg hk, if_neg hk]
      apply Option.map_congr
      intro r hr
      have hkey : r.pk = k :=
        ((Table.get?_eq_some_iff _ _ _).mp (Option.filter_eq_some_iff.mp hr).1).2
      unfold entryOf
      rw [hkey, havailable k hk]
  · intro k e he
    obtain ⟨r, hr, hk, hrt, hre⟩ := entry_historyOf.mp he
    subst hk hre
    exact ⟨hclock r hr hrt, db.revisions.below r hr⟩
  · intro p hp
    obtain ⟨latest, rfl, hkey⟩ := Option.map_eq_some_iff.mp hp
    simp only [isLatest, isLatestOf, Bool.and_eq_true, List.contains_iff_mem] at hlatest
    obtain ⟨hmem, hrt⟩ := mem_targetRevisions.mp hlatest.1
    exact isSome_entry_iff.mpr ⟨latest, hmem, hkey, hrt⟩
  · intro hnone k
    rw [Option.map_eq_none_iff] at hnone
    subst hnone
    rw [Option.eq_none_iff_forall_ne_some]
    intro e he
    obtain ⟨r, hr, _, hrt, _⟩ := entry_historyOf.mp he
    have hmem := mem_targetRevisions.mpr ⟨hr, hrt⟩
    rw [List.isEmpty_iff.mp hlatest] at hmem
    cases hmem
  · unfold historyOf
    dsimp only
    rw [htargets]
    exact markTargetSuccess_lastRevision

end Commit

end ConfigBackup.RevisionHistory
