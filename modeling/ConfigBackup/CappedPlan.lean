import ConfigBackup.RetentionPaths

/-!
The plan under a cap on the revisions of a target. It decides every candidate once, keeps the
mandatory candidates and the newest others that have a place, and planning again over what is
kept removes nothing. Only a window that reaches before year 1 leaves a target without a plan.
-/

namespace ConfigBackup.CappedPlan

open Calendar KeptRevisions NewestFirst Retention RetentionPaths SelectionRules

/-- The object ids that a plan keeps. -/
def keptIds (decisions : List RetentionDecision) : List ℕ :=
  (decisions.filter fun d => d.keep).map fun d => d.objectId

/-- The candidates that a plan keeps. -/
def survivors (revisions : List RevisionCandidate) (decisions : List RetentionDecision) :
    List RevisionCandidate :=
  revisions.filter fun r => (keptIds decisions).contains r.objectId

def uncapped (settings : RetentionSettings) : RetentionSettings :=
  { settings with maxRevisionsPerTarget := none }

/-- The newest candidates that the uncapped plan keeps for other reasons, as far as the cap has
places for them. -/
def placed (revisions : List RevisionCandidate) (plain : List RetentionDecision) (cap : ℕ) :
    List RevisionCandidate :=
  ((newestFirst RevisionCandidate.newer revisions).filter fun r =>
    (keptIds plain).contains r.objectId && !decide (Mandatory revisions r)).take
      (cap - mandatoryCount revisions)

/-- What a capped plan should be. -/
structure GoodPlan (settings : RetentionSettings) (revisions : List RevisionCandidate)
    (now : Instant) (cap : ℕ) (plain decisions : List RetentionDecision) : Prop where
  complete : (decisions.map fun d => d.objectId).Perm (revisions.map fun r => r.objectId)
  mandatory : ∀ r ∈ revisions, Mandatory revisions r → r.objectId ∈ keptIds decisions
  kept : ∀ r ∈ revisions, r.objectId ∈ keptIds decisions ↔
    Mandatory revisions r ∨ r ∈ placed revisions plain cap
  bounded : (keptIds decisions).length ≤ max cap (mandatoryCount revisions)
  stable : ∃ again, planRevisions settings (survivors revisions decisions) now = some again ∧
    ∀ d ∈ again, d.keep = true

/-- There is a plan, with and without the cap, and it is a good one. -/
def PlansWell (settings : RetentionSettings) (revisions : List RevisionCandidate)
    (now : Instant) (cap : ℕ) : Prop :=
  ∃ plain decisions, planRevisions (uncapped settings) revisions now = some plain ∧
    planRevisions settings revisions now = some decisions ∧
    GoodPlan settings revisions now cap plain decisions

section Complete

variable {settings : RetentionSettings} {revisions : List RevisionCandidate} {now : Instant}
  {decisions : List RetentionDecision}

theorem objectIds_capDecisions (mandatory : List ℕ) (remaining : ℕ)
    (l : List RetentionDecision) :
    (capDecisions mandatory remaining l).map (fun d => d.objectId) =
      l.map fun d => d.objectId := by
  induction l generalizing remaining with
  | nil => rfl
  | cons d l ih =>
    unfold capDecisions
    split
    · rw [List.map_cons, ih, List.map_cons]
    · split
      · rw [List.map_cons, ih, List.map_cons]
      · rw [List.map_cons, ih, List.map_cons]

/-- Every candidate has exactly one decision. -/
theorem objectIds_planRevisions (h : planRevisions settings revisions now = some decisions) :
    (decisions.map fun d => d.objectId).Perm (revisions.map fun r => r.objectId) := by
  unfold planRevisions at h
  cases hcut : daysBefore now settings.keepAllDays with
  | none =>
    rw [hcut] at h
    cases h
  | some cutoff =>
    rw [hcut, Option.bind_eq_bind, Option.bind_some] at h
    have hordered : ((newestFirst RevisionCandidate.newer revisions).map (revisionDecision
        (revisionReasons settings (newestFirst RevisionCandidate.newer revisions) cutoff
          now))).map (fun d => d.objectId) =
        (newestFirst RevisionCandidate.newer revisions).map fun r => r.objectId := by
      rw [List.map_map]
      rfl
    have hids : decisions.map (fun d => d.objectId) =
        (newestFirst RevisionCandidate.newer revisions).map fun r => r.objectId := by
      rw [← hordered]
      dsimp only at h
      split at h
      · rw [← Option.some.inj h]
      · rw [← Option.some.inj h]
      · rw [← Option.some.inj h, objectIds_capDecisions]
    rw [hids]
    exact (newestFirst_perm revisions).map _

/-- With one decision for each id, the decision about a kept id keeps it. -/
theorem keep_of_mem_keptIds (hnodup : (decisions.map fun d => d.objectId).Nodup)
    {d : RetentionDecision} (hd : d ∈ decisions) (h : d.objectId ∈ keptIds decisions) :
    d.keep = true := by
  obtain ⟨e, he, hed⟩ := List.mem_map.mp h
  obtain ⟨he, hkeep⟩ := List.mem_filter.mp he
  rw [← List.inj_on_of_nodup_map hnodup he hd hed]
  exact hkeep

theorem nodup_objectIds (hids : DistinctIds revisions)
    (h : planRevisions settings revisions now = some decisions) :
    (decisions.map fun d => d.objectId).Nodup := by
  rw [(objectIds_planRevisions h).nodup_iff, List.Nodup, List.pairwise_map]
  exact hids

/-- With one decision for each candidate, what does not expire is kept. -/
theorem mem_keptIds_iff (hids : DistinctIds revisions)
    (h : planRevisions settings revisions now = some decisions) {r : RevisionCandidate}
    (hr : r ∈ revisions) : r.objectId ∈ keptIds decisions ↔ Kept settings revisions now r := by
  have hexpired := mem_expired_planRevisions hids h hr
  obtain ⟨d, hd, hdr⟩ := List.mem_map.mp
    ((objectIds_planRevisions h).mem_iff.mpr (List.mem_map_of_mem hr))
  constructor
  · intro hkept
    by_contra hnot
    -- a decision that lets the id expire would keep it as well
    obtain ⟨e, he, her⟩ := List.mem_map.mp (hexpired.mpr hnot)
    obtain ⟨he, hdrop⟩ := List.mem_filter.mp he
    rw [← her] at hkept
    simp [keep_of_mem_keptIds (nodup_objectIds hids h) he hkept] at hdrop
  · intro hkept
    by_contra hnot
    apply hexpired.not.mpr (not_not_intro hkept)
    refine List.mem_map.mpr ⟨d, List.mem_filter.mpr ⟨hd, ?_⟩, hdr⟩
    by_contra hkeep
    apply hnot
    exact List.mem_map.mpr ⟨d, List.mem_filter.mpr ⟨hd, by simpa using hkeep⟩, hdr⟩

end Complete

section Cap

variable {settings : RetentionSettings} {revisions : List RevisionCandidate} {now : Instant}
  {cap : ℕ} {plain decisions : List RetentionDecision}

theorem kept_iff (hcap : settings.maxRevisionsPerTarget = some cap) (hpos : 1 ≤ cap)
    (r : RevisionCandidate) :
    Kept settings revisions now r ↔ Mandatory revisions r ∨
      competes settings revisions now r = true ∧
        newerCount RevisionCandidate.newer (competes settings revisions now) revisions r <
          cap - mandatoryCount revisions := by
  obtain ⟨limit, rfl⟩ : ∃ limit, cap = limit + 1 := ⟨cap - 1, by omega⟩
  unfold Kept WithinCap
  rw [hcap]
  change Retained settings revisions now r ∧ (Mandatory revisions r ∨
    newerCount RevisionCandidate.newer (competes settings revisions now) revisions r +
      mandatoryCount revisions < limit + 1) ↔ _
  by_cases hmandatory : Mandatory revisions r
  · simp [hmandatory, Retained]
  · have hplaces : ∀ n, n + mandatoryCount revisions < limit + 1 ↔
        n < limit + 1 - mandatoryCount revisions := fun n => by omega
    rw [hplaces]
    simp [hmandatory, competes]

/-- Without a cap the plan keeps what some rule retains. -/
theorem mem_keptIds_uncapped (hids : DistinctIds revisions)
    (hplain : planRevisions (uncapped settings) revisions now = some plain)
    {r : RevisionCandidate} (hr : r ∈ revisions) :
    r.objectId ∈ keptIds plain ↔ Retained settings revisions now r := by
  rw [mem_keptIds_iff hids hplain hr]
  exact and_iff_left trivial

theorem mem_placed_iff (hids : DistinctIds revisions)
    (hplain : planRevisions (uncapped settings) revisions now = some plain)
    {r : RevisionCandidate} (hr : r ∈ revisions) :
    r ∈ placed revisions plain cap ↔ competes settings revisions now r = true ∧
      newerCount RevisionCandidate.newer (competes settings revisions now) revisions r <
        cap - mandatoryCount revisions := by
  have hperm : (newestFirst RevisionCandidate.newer revisions).Perm revisions :=
    newestFirst_perm revisions
  have hcompetes : (newestFirst RevisionCandidate.newer revisions).filter (fun s =>
      (keptIds plain).contains s.objectId && !decide (Mandatory revisions s)) =
      (newestFirst RevisionCandidate.newer revisions).filter
        (competes settings revisions now) := by
    refine List.filter_congr fun s hs => ?_
    have hretained := mem_keptIds_uncapped hids hplain (mem_newestFirst.mp hs)
    simp [competes, ← hretained]
  unfold placed
  rw [hcompetes, mem_take_filter_iff recency.asymm hids.pairwise_newestFirst,
    newerCount_perm hperm, mem_newestFirst]
  exact and_iff_right hr

/-- The cap leaves the mandatory candidates and those that are placed. -/
theorem mem_keptIds_capped (hids : DistinctIds revisions)
    (hcap : settings.maxRevisionsPerTarget = some cap) (hpos : 1 ≤ cap)
    (hplain : planRevisions (uncapped settings) revisions now = some plain)
    (hplan : planRevisions settings revisions now = some decisions)
    {r : RevisionCandidate} (hr : r ∈ revisions) :
    r.objectId ∈ keptIds decisions ↔ Mandatory revisions r ∨ r ∈ placed revisions plain cap := by
  rw [mem_keptIds_iff hids hplan hr, kept_iff hcap hpos, mem_placed_iff hids hplain hr]

theorem length_keptIds_le (hids : DistinctIds revisions)
    (hcap : settings.maxRevisionsPerTarget = some cap) (hpos : 1 ≤ cap)
    (hplain : planRevisions (uncapped settings) revisions now = some plain)
    (hplan : planRevisions settings revisions now = some decisions) :
    (keptIds decisions).length ≤ max cap (mandatoryCount revisions) := by
  have hperm := objectIds_planRevisions hplan
  have hkept : (keptIds decisions).Nodup := (nodup_objectIds hids hplan).sublist (List.filter_sublist.map _)
  have hsubset : keptIds decisions ⊆ (revisions.filter (fun s => decide (Mandatory revisions s)) ++
      placed revisions plain cap).map fun r => r.objectId := by
    intro k hk
    obtain ⟨d, hd, rfl⟩ := List.mem_map.mp hk
    obtain ⟨r, hr, hrd⟩ := List.mem_map.mp
      (hperm.subset (List.mem_map_of_mem (List.mem_of_mem_filter hd)))
    rw [← hrd] at hk ⊢
    apply List.mem_map_of_mem
    rcases (mem_keptIds_capped hids hcap hpos hplain hplan hr).mp hk with hmandatory | hplaced
    · exact List.mem_append_left _ (List.mem_filter.mpr ⟨hr, by simpa using hmandatory⟩)
    · exact List.mem_append_right _ hplaced
  have hle := (List.subperm_of_subset hkept hsubset).length_le
  have hplaced : (placed revisions plain cap).length ≤ cap - mandatoryCount revisions :=
    List.length_take_le _ _
  rw [List.length_map, List.length_append] at hle
  have hcount : (revisions.filter fun s => decide (Mandatory revisions s)).length =
      mandatoryCount revisions := rfl
  omega

end Cap

section Again

variable {settings : RetentionSettings} {revisions : List RevisionCandidate} {now : Instant}
  {cap : ℕ} {decisions : List RetentionDecision}

theorem mem_survivors_iff (hids : DistinctIds revisions)
    (hplan : planRevisions settings revisions now = some decisions) {r : RevisionCandidate} :
    r ∈ survivors revisions decisions ↔ r ∈ revisions ∧ Kept settings revisions now r := by
  unfold survivors
  rw [List.mem_filter, List.contains_iff_mem]
  exact and_congr_right fun hr => mem_keptIds_iff hids hplan hr

/-- Among the kept candidates the same ones are mandatory. -/
theorem mandatory_survivors (hids : DistinctIds revisions)
    (hplan : planRevisions settings revisions now = some decisions) {r : RevisionCandidate}
    (hr : r ∈ survivors revisions decisions) :
    Mandatory (survivors revisions decisions) r ↔ Mandatory revisions r := by
  have hmem := (mem_survivors_iff hids hplan).mp hr
  refine or_congr_left ⟨fun hlatest => ?_, fun hlatest s hs => ?_⟩
  · obtain ⟨newest, hnewest, hall⟩ := recency.exists_newest (List.ne_nil_of_mem hmem.1)
    have hsurvives : newest ∈ survivors revisions decisions :=
      (mem_survivors_iff hids hplan).mpr ⟨hnewest, kept_of_latest hall⟩
    by_cases hsame : newest.objectId = r.objectId
    · rw [← hids.eq_of_objectId_eq hnewest hmem.1 hsame]
      exact hall
    · have hcomparable : newest.newer r ∨ r.newer newest := newerBy_or_newerBy hsame
      rcases hcomparable with hnewer | holder
      · exact absurd hnewer (hlatest newest hsurvives)
      · exact absurd holder (hall r hmem.1)
  · exact hlatest s ((mem_survivors_iff hids hplan).mp hs).1

theorem kept_of_mandatory {r : RevisionCandidate} (h : Mandatory revisions r) :
    Kept settings revisions now r := by
  refine ⟨Or.inl h, ?_⟩
  unfold WithinCap
  split
  · trivial
  · trivial
  · exact Or.inl h

theorem mandatoryCount_survivors (hids : DistinctIds revisions)
    (hplan : planRevisions settings revisions now = some decisions) :
    mandatoryCount (survivors revisions decisions) = mandatoryCount revisions := by
  unfold mandatoryCount
  have hsame : (survivors revisions decisions).filter
      (fun s => decide (Mandatory (survivors revisions decisions) s)) =
      (survivors revisions decisions).filter (fun s => decide (Mandatory revisions s)) := by
    refine List.filter_congr fun s hs => ?_
    simp only [mandatory_survivors hids hplan hs]
  rw [hsame]
  unfold survivors
  rw [List.filter_filter]
  congr 1
  refine List.filter_congr fun s hs => ?_
  by_cases hmandatory : Mandatory revisions s
  · have hkept := (mem_keptIds_iff hids hplan hs).mpr (kept_of_mandatory hmandatory)
    simp [hmandatory, hkept]
  · simp [hmandatory]

/-- What is kept is kept again among the kept ones. -/
theorem kept_survivors (hids : DistinctIds revisions)
    (hcap : settings.maxRevisionsPerTarget = some cap) (hpos : 1 ≤ cap)
    (hplan : planRevisions settings revisions now = some decisions) {r : RevisionCandidate}
    (hr : r ∈ survivors revisions decisions) :
    Kept settings (survivors revisions decisions) now r := by
  have hmem := (mem_survivors_iff hids hplan).mp hr
  have hnodup : (survivors revisions decisions).Nodup :=
    (nodup_of_distinctIds hids).filter _
  have hsub : survivors revisions decisions ⊆ revisions := fun s hs => List.mem_of_mem_filter hs
  have hretained : ∀ s ∈ survivors revisions decisions,
      Retained settings (survivors revisions decisions) now s := fun s hs =>
    (pathIndependent_retained settings).fewer hnodup hsub ((mem_survivors_iff hids hplan).mp hs).2.1
  by_cases hmandatory : Mandatory revisions r
  · exact kept_of_mandatory ((mandatory_survivors hids hplan hr).mpr hmandatory)
  · obtain ⟨hcompetes, hplaces⟩ :=
      ((kept_iff hcap hpos r).mp hmem.2).resolve_left hmandatory
    rw [kept_iff hcap hpos, mandatoryCount_survivors hids hplan]
    right
    constructor
    · have hnot := (mandatory_survivors hids hplan hr).not.mpr hmandatory
      simp [competes, hretained r hr, hnot]
    · refine lt_of_le_of_lt ?_ hplaces
      have hsame : newerCount RevisionCandidate.newer
          (competes settings (survivors revisions decisions) now)
            (survivors revisions decisions) r =
          newerCount RevisionCandidate.newer (competes settings revisions now)
            (survivors revisions decisions) r := by
        unfold newerCount
        congr 1
        refine List.filter_congr fun s hs => ?_
        have hagain := hretained s hs
        have hbefore := ((mem_survivors_iff hids hplan).mp hs).2.1
        simp only [competes, hagain, hbefore, mandatory_survivors hids hplan hs]
      rw [hsame]
      exact newerCount_le hnodup fun s hs _ hnewer => ⟨hsub hs, hnewer⟩

theorem all_keep_of_kept (hids : DistinctIds revisions)
    (hplan : planRevisions settings revisions now = some decisions)
    (h : ∀ r ∈ revisions, Kept settings revisions now r) : ∀ d ∈ decisions, d.keep = true := by
  intro d hd
  obtain ⟨r, hr, hrd⟩ := List.mem_map.mp
    ((objectIds_planRevisions hplan).subset (List.mem_map_of_mem hd))
  apply keep_of_mem_keptIds (nodup_objectIds hids hplan) hd
  rw [← hrd]
  exact (mem_keptIds_iff hids hplan hr).mpr (h r hr)

theorem exists_plan {cutoff : Instant} (settings : RetentionSettings)
    (revisions : List RevisionCandidate)
    (hcut : daysBefore now settings.keepAllDays = some cutoff) :
    ∃ decisions, planRevisions settings revisions now = some decisions :=
  Option.isSome_iff_exists.mp (planRevisions_isSome_iff.mpr (by simp [hcut]))

/-- Under a cap of at least one the planner plans well exactly when the window in which it keeps
all revisions does not reach before year 1. -/
theorem plansWell_iff (hids : DistinctIds revisions)
    (hcap : settings.maxRevisionsPerTarget = some cap) (hpos : 1 ≤ cap) :
    PlansWell settings revisions now cap ↔ minInstant ≤ now - days settings.keepAllDays := by
  constructor
  · rintro ⟨plain, decisions, -, hplan, -⟩
    have hsome := planRevisions_isSome_iff.mp (Option.isSome_iff_exists.mpr ⟨_, hplan⟩)
    unfold daysBefore at hsome
    split at hsome
    · cases hsome
    · rename_i hwindow
      exact not_lt.mp hwindow
  · intro hwindow
    have hcut : daysBefore now settings.keepAllDays = some (now - days settings.keepAllDays) :=
      if_neg (not_lt.mpr hwindow)
    obtain ⟨plain, hplain⟩ := exists_plan (uncapped settings) revisions hcut
    obtain ⟨decisions, hplan⟩ := exists_plan settings revisions hcut
    refine ⟨plain, decisions, hplain, hplan, objectIds_planRevisions hplan, ?_, ?_, ?_, ?_⟩
    · intro r hr hmandatory
      exact (mem_keptIds_iff hids hplan hr).mpr (kept_of_mandatory hmandatory)
    · intro r hr
      exact mem_keptIds_capped hids hcap hpos hplain hplan hr
    · exact length_keptIds_le hids hcap hpos hplain hplan
    · obtain ⟨again, hagain⟩ := exists_plan settings (survivors revisions decisions) hcut
      refine ⟨again, hagain, all_keep_of_kept (hids.filter _) hagain fun r hr => ?_⟩
      exact kept_survivors hids hcap hpos hplan hr

end Again

section Examples

/-- A profile with a cap of two; its windows other than the first one are empty. -/
def cappedSettings (keepAllDays : ℕ) : RetentionSettings where
  keepAllDays := keepAllDays
  dailyDays := 0
  weeklyWeeks := 0
  monthlyMonths := 0
  minimumChangedRevisions := 0
  unchangedRunDays := 0
  changedRunDays := 0
  failedRunDays := 0
  maxRunsPerTarget := 1
  maxRevisionsPerTarget := some 2

def threeRevisions : List RevisionCandidate :=
  [⟨1, 0, false, true⟩, ⟨2, 5, false, true⟩, ⟨3, 9, false, false⟩]

theorem plansWell_iff_three :
    PlansWell (cappedSettings 30) threeRevisions 10 2 ↔
      minInstant ≤ 10 - days (cappedSettings 30).keepAllDays :=
  plansWell_iff (by unfold DistinctIds threeRevisions; decide) rfl (by decide)

/-- A period that is longer than the calendar raises instead of keeping everything. -/
theorem plansWell_counterexample :
    ¬ ∀ (settings : RetentionSettings) (revisions : List RevisionCandidate) (now : Instant)
      (cap : ℕ), DistinctIds revisions → settings.maxRevisionsPerTarget = some cap → 1 ≤ cap →
      PlansWell settings revisions now cap := by
  intro hall
  have hdistinct : DistinctIds threeRevisions := by
    unfold DistinctIds threeRevisions
    decide
  obtain ⟨-, decisions, -, hplan, -⟩ :=
    hall (cappedSettings 1000000) threeRevisions 10 2 hdistinct rfl (by decide)
  have hnone : planRevisions (cappedSettings 1000000) threeRevisions 10 = none := by
    decide +kernel
  rw [hnone] at hplan
  cases hplan

end Examples

end ConfigBackup.CappedPlan
