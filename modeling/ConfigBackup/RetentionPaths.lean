import ConfigBackup.CalendarOrder
import ConfigBackup.RevisionHistory
import ConfigBackup.SelectionRules
import Mathlib.Data.List.Induction

/-!
Repeated local cleanups. Each one plans over the revisions that are left and
those that arrived, and removes what its plan does not keep, except for
deferred revisions. Every retention rule is path independent, so the last plan
keeps what a single plan over all revisions keeps, and no cleanup on the way
removes any of these.
-/

namespace ConfigBackup.RetentionPaths

open Calendar CalendarOrder KeptRevisions LocalRetention Models NewestFirst RemoteRetention
  Retention RevisionChain RevisionHistory SelectionRules Tables

/-- An age below a bound stays below it at an earlier time after birth. -/
theorem age_earlier {now before born bound : ℤ} (hbefore : before ≤ now) (hborn : born ≤ before)
    (h : 0 ≤ now - born ∧ now - born < bound) :
    0 ≤ before - born ∧ before - born < bound := by
  omega

theorem months_between (y m y' m' : ℤ) : (y - y') * 12 + m - m' = y * 12 + m - (y' * 12 + m') := by
  omega

theorem withinDays_earlier {n : ℕ} {s t c : Instant} (hst : s ≤ t) (hcs : c ≤ s)
    (h : withinDays c t n = true) : withinDays c s n = true := by
  unfold withinDays at h ⊢
  by_cases hn : n = 0
  · simp [hn] at h
  · rw [if_neg hn, decide_eq_true_eq] at h ⊢
    exact age_earlier (date_mono hst) (date_mono hcs) h

theorem withinWeeks_earlier {n : ℕ} {s t c : Instant} (hst : s ≤ t) (hcs : c ≤ s)
    (h : withinWeeks c t n = true) : withinWeeks c s n = true := by
  unfold withinWeeks at h ⊢
  by_cases hn : n = 0
  · simp [hn] at h
  · rw [if_neg hn] at h ⊢
    dsimp only at h ⊢
    rw [decide_eq_true_eq] at h ⊢
    exact age_earlier (weekStart_mono (date_mono hst)) (weekStart_mono (date_mono hcs)) h

theorem withinMonths_earlier {n : ℕ} {s t c : Instant} (hst : s ≤ t) (hcs : c ≤ s)
    (h : withinMonths c t n = true) : withinMonths c s n = true := by
  unfold withinMonths at h ⊢
  by_cases hn : n = 0
  · simp [hn] at h
  · rw [if_neg hn] at h ⊢
    dsimp only at h ⊢
    rw [decide_eq_true_eq, months_between] at h ⊢
    exact age_earlier (monthIndex_mono (date_mono hst)) (monthIndex_mono (date_mono hcs)) h

/-- Revisions of one ISO week are equally old in weeks. -/
theorem withinWeeks_congr {n : ℕ} {t c c' : Instant} (h : isoWeek (date c) = isoWeek (date c')) :
    withinWeeks c t n = withinWeeks c' t n := by
  unfold withinWeeks
  rw [weekStart_eq_of_isoWeek_eq h]

theorem withinMonths_congr {n : ℕ} {t c c' : Instant}
    (h : (year (date c), month (date c)) = (year (date c'), month (date c'))) :
    withinMonths c t n = withinMonths c' t n := by
  unfold withinMonths
  rw [(Prod.mk.inj h).1, (Prod.mk.inj h).2]

/-- The rules of the planner as one rule on lists. -/
theorem retained_iff (settings : RetentionSettings) (l : List RevisionCandidate) (t : Instant)
    (r : RevisionCandidate) : Retained settings l t r ↔
      ((true = true ∧ newerCount RevisionCandidate.newer (fun _ => true) l r < 1) ∨
        r.isProtected = true) ∨ MinimumChanged settings l r ∨ Recent settings t r ∨
        DailySample settings l t r ∨ WeeklySample settings l t r ∨ MonthlySample settings l t r := by
  have hlatest : newerCount RevisionCandidate.newer (fun _ => true) l r < 1 ↔ Latest l r := by
    unfold newerCount Latest
    rw [Nat.lt_one_iff, List.length_eq_zero_iff, List.filter_eq_nil_iff]
    simp
  unfold Retained Mandatory
  rw [hlatest]
  simp

theorem pathIndependent_retained (settings : RetentionSettings) :
    PathIndependent RevisionCandidate.created (Retained settings) := by
  have hlatest : PathIndependent RevisionCandidate.created _ :=
    @pathIndependent_newest _ Instant _ RevisionCandidate.created _ _ recency (fun _ => true) 1
  have hprotected : PathIndependent RevisionCandidate.created
      (fun _ (_ : Instant) r => r.isProtected = true) :=
    pathIndependent_item (fun _ _ h => h)
  have hchanged : PathIndependent RevisionCandidate.created
      (fun l (_ : Instant) r => MinimumChanged settings l r) :=
    pathIndependent_newest recency (fun r => r.contentChanged) settings.minimumChangedRevisions
  have hrecent : PathIndependent RevisionCandidate.created
      (fun _ t r => Recent settings t r) := by
    refine pathIndependent_item ?_
    intro s t r hst _ h
    exact ⟨h.1, le_trans (Int.sub_le_sub_right hst _) h.2⟩
  have hdaily : PathIndependent RevisionCandidate.created
      (fun l t r => DailySample settings l t r) :=
    pathIndependent_sample recency _ _ (fun hst hcs h => withinDays_earlier hst hcs h)
      (fun t x y h => by unfold withinDays; rw [h])
  have hweekly : PathIndependent RevisionCandidate.created
      (fun l t r => WeeklySample settings l t r) :=
    pathIndependent_sample recency _ _ (fun hst hcs h => withinWeeks_earlier hst hcs h)
      (fun t x y h => withinWeeks_congr h)
  have hmonthly : PathIndependent RevisionCandidate.created
      (fun l t r => MonthlySample settings l t r) :=
    pathIndependent_sample recency _ _ (fun hst hcs h => withinMonths_earlier hst hcs h)
      (fun t x y h => withinMonths_congr h)
  have hall := (hlatest.or hprotected).or
    (hchanged.or (hrecent.or (hdaily.or (hweekly.or hmonthly))))
  have hrule : Retained settings = _ :=
    funext fun l => funext fun t => funext fun r => propext (retained_iff settings l t r)
  rw [hrule]
  exact hall

/-- One cleanup: its time, the revisions it sees first, the runs it plans with,
and the planned deletions that it defers. -/
structure Cleanup where
  now : Instant
  arrivals : List RevisionCandidate
  runs : List RunCandidate
  deferred : ℕ → Bool

/-- The revisions that a cleanup leaves; without a plan it removes none. -/
def cleanUp (settings : RetentionSettings) (present : List RevisionCandidate) (c : Cleanup) :
    List RevisionCandidate :=
  let seen := present ++ c.arrivals
  match buildRetentionPlan settings seen c.runs c.now with
  | none => seen
  | some plan => seen.filter (fun r =>
      !(expired plan.revisionDecisions).contains r.objectId || c.deferred r.objectId)

def survivors (settings : RetentionSettings) (cleanups : List Cleanup) : List RevisionCandidate :=
  cleanups.foldl (cleanUp settings) []

/-- All revisions that some cleanup has seen. -/
def created (cleanups : List Cleanup) : List RevisionCandidate :=
  cleanups.flatMap (fun c => c.arrivals)

/-- Cleanups in the order of time, none of which sees a revision of its future. -/
structure InOrder (cleanups : List Cleanup) : Prop where
  distinct : DistinctIds (created cleanups)
  times : cleanups.Pairwise (fun a b => a.now ≤ b.now)
  born : ∀ c ∈ cleanups, ∀ r ∈ c.arrivals, r.created ≤ c.now

def Uncapped (settings : RetentionSettings) : Prop :=
  settings.maxRevisionsPerTarget = none ∨ settings.maxRevisionsPerTarget = some 0

theorem kept_iff_retained {settings : RetentionSettings} (hcap : Uncapped settings)
    (l : List RevisionCandidate) (t : Instant) (r : RevisionCandidate) :
    Kept settings l t r ↔ Retained settings l t r := by
  unfold Kept WithinCap
  rcases hcap with hcap | hcap <;> rw [hcap] <;> simp

theorem nodup_of_distinctIds {l : List RevisionCandidate} (h : DistinctIds l) : l.Nodup :=
  h.imp (fun hne heq => hne (by rw [heq]))

theorem distinctIds_of_subset {l m : List RevisionCandidate} (h : DistinctIds l) (hm : m.Nodup)
    (hsub : m ⊆ l) : DistinctIds m := by
  refine hm.pairwise_of_forall_ne ?_
  intro a ha b hb hne hid
  exact hne (h.eq_of_objectId_eq (hsub ha) (hsub hb) hid)

/-- A plan without a cap expires exactly what no rule retains. -/
theorem mem_expired_plan {settings : RetentionSettings} (hcap : Uncapped settings)
    {l : List RevisionCandidate} {runs : List RunCandidate} {now : Instant} {plan : RetentionPlan}
    (hids : DistinctIds l) (hplan : buildRetentionPlan settings l runs now = some plan)
    {r : RevisionCandidate} (hr : r ∈ l) :
    r.objectId ∈ expired plan.revisionDecisions ↔ ¬ Retained settings l now r := by
  unfold buildRetentionPlan at hplan
  obtain ⟨decisions, hdecisions, hplan⟩ := Option.bind_eq_some_iff.mp hplan
  obtain ⟨runDecisions, _, hplan⟩ := Option.bind_eq_some_iff.mp hplan
  rw [← Option.some.inj hplan]
  rw [mem_expired_planRevisions hids hdecisions hr, kept_iff_retained hcap]

/-- Whether there is a plan depends on the windows and the time only. -/
theorem isSome_plan {settings : RetentionSettings} (l m : List RevisionCandidate)
    (runs : List RunCandidate) (now : Instant) :
    (buildRetentionPlan settings l runs now).isSome =
      (buildRetentionPlan settings m runs now).isSome := by
  have hrevisions : (planRevisions settings l now).isSome = (planRevisions settings m now).isSome :=
    Bool.eq_iff_iff.mpr (planRevisions_isSome_iff.trans planRevisions_isSome_iff.symm)
  unfold buildRetentionPlan
  cases hl : planRevisions settings l now <;> cases hm : planRevisions settings m now <;>
    simp [hl, hm] at hrevisions ⊢
  cases planRuns settings runs now <;> rfl

theorem created_append (cleanups : List Cleanup) (c : Cleanup) :
    created (cleanups ++ [c]) = created cleanups ++ c.arrivals := by
  simp [created]

theorem InOrder.init {cleanups : List Cleanup} {c : Cleanup} (h : InOrder (cleanups ++ [c])) :
    InOrder cleanups where
  distinct := by
    have hall := h.distinct
    rw [created_append] at hall
    exact (List.pairwise_append.mp hall).1
  times := (List.pairwise_append.mp h.times).1
  born a ha := h.born a (List.mem_append_left _ ha)

theorem InOrder.le_last {cleanups : List Cleanup} {c : Cleanup} (h : InOrder (cleanups ++ [c]))
    {a : Cleanup} (ha : a ∈ cleanups ++ [c]) : a.now ≤ c.now := by
  rcases List.mem_append.mp ha with ha | ha
  · exact (List.pairwise_append.mp h.times).2.2 a ha c (List.mem_singleton_self c)
  · rw [List.mem_singleton.mp ha]

theorem InOrder.created_le {cleanups : List Cleanup} {c : Cleanup}
    (h : InOrder (cleanups ++ [c])) {r : RevisionCandidate} (hr : r ∈ created (cleanups ++ [c])) :
    r.created ≤ c.now := by
  obtain ⟨a, ha, hra⟩ := List.mem_flatMap.mp hr
  exact le_trans (h.born a ha r hra) (h.le_last ha)

/-- A cleanup removes nothing that a rule keeps at its time or later. -/
theorem safe_cleanUp {settings : RetentionSettings} (hcap : Uncapped settings)
    {all present : List RevisionCandidate} {c : Cleanup}
    (h : Safe (Retained settings) c.now all present) (hids : DistinctIds (all ++ c.arrivals))
    (hborn : ∀ r ∈ all ++ c.arrivals, r.created ≤ c.now) :
    Safe (Retained settings) c.now (all ++ c.arrivals) (present ++ c.arrivals) ∧
      Safe (Retained settings) c.now (all ++ c.arrivals) (cleanUp settings present c) := by
  have hrule := pathIndependent_retained settings
  have hseen := h.arrive hrule (nodup_of_distinctIds hids)
  refine ⟨hseen, ?_⟩
  unfold cleanUp
  dsimp only
  split
  · exact hseen
  · rename_i plan hplan
    refine hseen.prune hrule hborn List.filter_sublist ?_
    intro r hr hkeep
    have hidsSeen := distinctIds_of_subset hids hseen.nodup hseen.subset
    have hnot : r.objectId ∉ expired plan.revisionDecisions := by
      rw [mem_expired_plan hcap hidsSeen hplan hr]
      exact not_not_intro hkeep
    exact List.mem_filter.mpr ⟨hr, by simp [hnot]⟩

theorem safe_survivors {settings : RetentionSettings} (hcap : Uncapped settings)
    {cleanups : List Cleanup} (h : InOrder cleanups) {now : Instant}
    (hnow : ∀ c ∈ cleanups, c.now ≤ now) :
    Safe (Retained settings) now (created cleanups) (survivors settings cleanups) := by
  induction cleanups using List.reverseRecOn generalizing now with
  | nil => exact safe_nil
  | append_singleton cleanups c ih =>
    have hbefore : Safe (Retained settings) c.now (created cleanups) (survivors settings cleanups) :=
      ih h.init (fun a ha => h.le_last (List.mem_append_left _ ha))
    have hdistinct := h.distinct
    have hborn : ∀ r ∈ created (cleanups ++ [c]), r.created ≤ c.now := fun r hr => h.created_le hr
    rw [created_append] at hdistinct hborn ⊢
    have hafter := (safe_cleanUp hcap hbefore hdistinct hborn).2
    have hlast : survivors settings (cleanups ++ [c]) =
        cleanUp settings (survivors settings cleanups) c := by
      unfold survivors
      rw [List.foldl_append]
      rfl
    rw [hlast]
    exact hafter.later (hnow c (List.mem_append_right _ (List.mem_singleton_self c)))

/-- The last of any cleanups in order keeps exactly the revisions that a single
plan over all revisions keeps then, and all of these are still there. -/
theorem retention_path_independent {settings : RetentionSettings} (hcap : Uncapped settings)
    {before : List Cleanup} {last : Cleanup} (h : InOrder (before ++ [last])) :
    let seen := survivors settings before ++ last.arrivals
    let all := created (before ++ [last])
    (buildRetentionPlan settings seen last.runs last.now).isSome =
        (buildRetentionPlan settings all last.runs last.now).isSome ∧
      ∀ plan whole, buildRetentionPlan settings seen last.runs last.now = some plan →
        buildRetentionPlan settings all last.runs last.now = some whole →
        ∀ r ∈ all, (r ∈ seen ∧ r.objectId ∉ expired plan.revisionDecisions) ↔
          r.objectId ∉ expired whole.revisionDecisions := by
  intro seen all
  refine ⟨isSome_plan seen all last.runs last.now, ?_⟩
  intro plan whole hplan hwhole r hr
  have hbefore := safe_survivors hcap h.init
    (fun a ha => h.le_last (List.mem_append_left _ ha))
  have hdistinct := h.distinct
  have hborn : ∀ r ∈ created (before ++ [last]), r.created ≤ last.now := fun r hr => h.created_le hr
  have hsafe : Safe (Retained settings) last.now all seen := by
    rw [created_append] at hdistinct hborn
    have hseen := (safe_cleanUp hcap hbefore hdistinct hborn).1
    rw [← created_append] at hseen
    exact hseen
  have hseenIds := distinctIds_of_subset hdistinct hsafe.nodup hsafe.subset
  have hsame := hsafe.keep_iff (pathIndependent_retained settings)
    (nodup_of_distinctIds hdistinct) hr
  rw [mem_expired_plan hcap hdistinct hwhole hr, not_not, ← hsame]
  refine and_congr_right ?_
  intro hmem
  rw [mem_expired_plan hcap hseenIds hplan hmem, not_not]

/-- Keep one revision of the day, besides the latest one. -/
def dailySettings : RetentionSettings := ⟨0, 1, 0, 0, 0, 0, 0, 0, 1, none⟩

def dayOne : Cleanup :=
  ⟨days 20000 + 9, [⟨1, days 20000 + 1, false, true⟩, ⟨2, days 20000 + 2, false, true⟩], [],
    fun _ => false⟩

def dayTwo : Cleanup := ⟨days 20001 + 9, [⟨3, days 20001 + 1, false, true⟩], [], fun _ => false⟩

theorem inOrder_twoDays : InOrder ([dayOne] ++ [dayTwo]) where
  distinct := by unfold DistinctIds; decide
  times := by decide
  born := by decide

/-- The first cleanup removes revision 1 and the second removes revision 2, as
one cleanup on the second day does. -/
theorem retention_path_independent_twoDays :
    (survivors dailySettings [dayOne, dayTwo]).map (fun r => r.objectId) = [3] ∧
      ∀ plan whole,
        buildRetentionPlan dailySettings (survivors dailySettings [dayOne] ++ dayTwo.arrivals) []
          dayTwo.now = some plan →
        buildRetentionPlan dailySettings (created ([dayOne] ++ [dayTwo])) [] dayTwo.now =
          some whole →
        ∀ r ∈ created ([dayOne] ++ [dayTwo]),
          (r ∈ survivors dailySettings [dayOne] ++ dayTwo.arrivals ∧
            r.objectId ∉ expired plan.revisionDecisions) ↔
          r.objectId ∉ expired whole.revisionDecisions :=
  ⟨by decide +kernel, (retention_path_independent (Or.inl rfl) inOrder_twoDays).2⟩

section Database

variable {db : Database} {targetId : ℕ} {now : Instant} {revisionIds runIds : List ℕ}

/-- What the local cleanup plans over. -/
def localCandidates (db : Database) (targetId : ℕ) : List RevisionCandidate :=
  ((newestFirst ConfigRevision.newer (db.targetRevisions targetId)).filter
    (fun r => db.locallyAvailable r.pk)).map revisionCandidate

theorem mem_localCandidates {c : RevisionCandidate} : c ∈ localCandidates db targetId ↔
    ∃ r, db.revisions.get? r.pk = some r ∧ r.target = targetId ∧
      db.locallyAvailable r.pk = true ∧ revisionCandidate r = c := by
  unfold localCandidates
  simp only [List.mem_map, List.mem_filter, mem_newestFirst, mem_targetRevisions]
  constructor
  · rintro ⟨r, ⟨⟨hr, htarget⟩, hlocal⟩, hc⟩
    exact ⟨r, db.revisions.get?_of_mem hr, htarget, hlocal, hc⟩
  · rintro ⟨r, hget, htarget, hlocal, hc⟩
    exact ⟨r, ⟨⟨((Table.get?_eq_some_iff _ _ _).mp hget).1, htarget⟩, hlocal⟩, hc⟩

/-- The cleanup removes rows of expired revisions and changes links of others. -/
theorem get?_applyRetention (k : ℕ) : ∃ (gone : Bool) (f : ConfigRevision → ConfigRevision),
    (gone = true → k ∈ revisionIds) ∧ (∀ r, ∃ link, f r = withPrevious link r) ∧
      (applyRetention db now targetId revisionIds runIds).revisions.get? k =
        (if gone then none else (db.revisions.get? k).map f) ∧
      (gone = false →
        ((applyRetention db now targetId revisionIds runIds).locallyAvailable k = true ↔
          db.locallyAvailable k = true ∧ k ∉ revisionIds)) := by
  have hkeys : (newestFirst ConfigRevision.newer (db.targetRevisions targetId)).Pairwise
      (fun a b => a.pk ≠ b.pk) :=
    ((newestFirst_perm _).pairwise_iff (fun h => Ne.symm h)).mpr targetRevisions_keys
  obtain ⟨f, hget, hf⟩ := @get?_relink (markUnavailable db now revisionIds) targetId _
    (fun pk => revisionIds.contains pk || !db.locallyAvailable pk) hkeys k
  generalize hremoved : revisionIds.filter (fun pk => !hasRecordedRemoteCopy (db.replicasOf pk)) =
    removed
  let unlinked (r : ConfigRevision) : ConfigRevision :=
    withPrevious ((f r).previousRevision.filter (fun pk => !removed.contains pk)) (f r)
  refine ⟨removed.contains k, unlinked, ?_, ?_, ?_, ?_⟩
  · intro hgone
    rw [← hremoved] at hgone
    exact List.mem_of_mem_filter (List.contains_iff_mem.mp hgone)
  · intro r
    obtain ⟨link, hlink⟩ := hf r
    refine ⟨link.filter (fun pk => !removed.contains pk), ?_⟩
    unfold unlinked
    rw [hlink]
    rfl
  · unfold applyRetention
    rw [Database.get?_deleteRevisions]
    dsimp only
    rw [hget, hremoved]
    change Option.map _ (Option.filter _ ((db.revisions.get? k).map f)) = _
    cases hrow : db.revisions.get? k with
    | none => simp
    | some r =>
      obtain ⟨link, hlink⟩ := hf r
      have hpk : (f r).pk = k := by
        rw [hlink, withPrevious_pk]
        exact ((Table.get?_eq_some_iff _ _ _).mp hrow).2
      rw [Option.map_some, Option.filter_some, hpk]
      cases removed.contains k <;> rfl
  · intro hgone
    unfold applyRetention
    rw [locallyAvailable_deleteRevisions (by rw [hremoved, hgone])]
    have hruns : ∀ (d : Database) (runs : Table BackupRun BackupRun.pk),
        ({ d with runs := runs } : Database).locallyAvailable k = d.locallyAvailable k :=
      fun _ _ => rfl
    rw [hruns, relink_locallyAvailable, locallyAvailable_markUnavailable]
    simp

/-- What is left for the next plan: the candidates whose files were not removed. -/
theorem mem_localCandidates_applyRetention {c : RevisionCandidate} :
    c ∈ localCandidates (applyRetention db now targetId revisionIds runIds) targetId ↔
      c ∈ localCandidates db targetId ∧ c.objectId ∉ revisionIds := by
  rw [mem_localCandidates, mem_localCandidates]
  constructor
  · rintro ⟨r, hget, htarget, hlocal, rfl⟩
    obtain ⟨gone, f, _, hf, hrow, havailable⟩ :=
      @get?_applyRetention db targetId now revisionIds runIds r.pk
    cases gone with
    | true => rw [hrow] at hget; cases hget
    | false =>
      rw [hrow] at hget
      obtain ⟨old, hold, hfr⟩ := Option.map_eq_some_iff.mp hget
      obtain ⟨link, hlink⟩ := hf old
      obtain ⟨hlocal, hkept⟩ := (havailable rfl).mp hlocal
      rw [hlink] at hfr
      subst hfr
      exact ⟨⟨old, hold, htarget, hlocal, rfl⟩, hkept⟩
  · rintro ⟨⟨r, hget, htarget, hlocal, rfl⟩, hkept⟩
    change r.pk ∉ revisionIds at hkept
    obtain ⟨gone, f, hgone, hf, hrow, havailable⟩ :=
      @get?_applyRetention db targetId now revisionIds runIds r.pk
    have hstays : gone = false := by
      by_contra hnot
      exact hkept (hgone (by simpa using hnot))
    subst hstays
    obtain ⟨link, hlink⟩ := hf r
    refine ⟨withPrevious link r, ?_, htarget, (havailable rfl).mpr ⟨hlocal, hkept⟩, rfl⟩
    rw [withPrevious_pk, hrow, hget, ← hlink]
    rfl

/-- The database cleanup is one of the cleanups above: it plans over the local
candidates and defers the sources of transfers that are still in flight. -/
theorem mem_cleanUp_localCandidates {policy : RetentionPolicy} {deferredCount : ℕ}
    (hwork : retentionWork db now targetId policy = some (revisionIds, runIds, deferredCount))
    {c : RevisionCandidate} :
    c ∈ localCandidates (applyRetention db now targetId revisionIds runIds) targetId ↔
      c ∈ cleanUp (settingsFromPolicy policy) (localCandidates db targetId) {
        now := now
        arrivals := []
        runs := (targetRuns db targetId).map runCandidate
        deferred := fun pk => (db.replicasOf pk).any (needsSource db) } := by
  unfold retentionWork at hwork
  obtain ⟨plan, hplan, hwork⟩ := Option.bind_eq_some_iff.mp hwork
  obtain ⟨hids, _⟩ := Prod.mk.inj (Option.some.inj hwork)
  rw [mem_localCandidates_applyRetention]
  unfold cleanUp
  dsimp only
  rw [List.append_nil]
  change buildRetentionPlan (settingsFromPolicy policy) (localCandidates db targetId) _ now = _
    at hplan
  rw [hplan, ← hids]
  simp only [List.mem_filter]
  refine and_congr_right ?_
  intro _
  by_cases hexpired : c.objectId ∈ expired plan.revisionDecisions
  · simp [hexpired]
  · simp [hexpired]

end Database

end ConfigBackup.RetentionPaths
