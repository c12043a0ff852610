import ConfigBackup.CappedPlan

/-!
The plan for the runs of a target. Active runs and runs of an unknown status stay and do not
count. Of the completed runs inside the window of their own status the newest ones stay, up to
the limit, and planning again over what is kept removes nothing.
-/

namespace ConfigBackup.RunPlan

open Calendar CappedPlan NewestFirst Retention SelectionRules

/-- A run of a known status that is not active. -/
def completed (run : RunCandidate) : Bool :=
  decide (run.status ∈ knownRunStatuses ∧ run.status ∉ activeRunStatuses)

/-- The days that the runs of a completed status are kept. -/
def windowDays (settings : RetentionSettings) (status : String) : ℕ :=
  if status ∈ unchangedRunStatuses then settings.unchangedRunDays
  else if status ∈ changedRunStatuses then settings.changedRunDays
  else settings.failedRunDays

/-- The run lies inside the window of its own status; a window of no days is empty. -/
def inWindow (settings : RetentionSettings) (now : Instant) (run : RunCandidate) : Bool :=
  windowDays settings run.status != 0 &&
    decide (now - days (windowDays settings run.status) ≤ run.timestamp)

def DistinctIds (runs : List RunCandidate) : Prop :=
  runs.Pairwise fun a b => a.objectId ≠ b.objectId

/-- The newest completed runs inside their windows, up to the limit. -/
def newestRuns (settings : RetentionSettings) (runs : List RunCandidate) (now : Instant) :
    List RunCandidate :=
  ((newestFirst RunCandidate.newer runs).filter fun run =>
    completed run && inWindow settings now run).take settings.maxRunsPerTarget

/-- The runs that a plan keeps. -/
def survivors (runs : List RunCandidate) (decisions : List RetentionDecision) :
    List RunCandidate :=
  runs.filter fun run => (keptIds decisions).contains run.objectId

/-- What a plan for the runs should be. -/
structure GoodPlan (settings : RetentionSettings) (runs : List RunCandidate) (now : Instant)
    (decisions : List RetentionDecision) : Prop where
  complete : (decisions.map fun d => d.objectId).Perm (runs.map fun run => run.objectId)
  others : ∀ run ∈ runs, completed run = false → run.objectId ∈ keptIds decisions
  newest : ∀ run ∈ runs, completed run = true →
    (run.objectId ∈ keptIds decisions ↔ run ∈ newestRuns settings runs now)
  stable : ∃ again, planRuns settings (survivors runs decisions) now = some again ∧
    ∀ d ∈ again, d.keep = true

def PlansRuns (settings : RetentionSettings) (runs : List RunCandidate) (now : Instant) : Prop :=
  ∃ decisions, planRuns settings runs now = some decisions ∧
    GoodPlan settings runs now decisions

/-- No completed run has a window that reaches before year 1. -/
def WindowsFit (settings : RetentionSettings) (runs : List RunCandidate) (now : Instant) : Prop :=
  ∀ run ∈ runs, completed run = true → windowDays settings run.status ≠ 0 →
    minInstant ≤ now - days (windowDays settings run.status)

section OneRun

variable {settings : RetentionSettings} {now : Instant} {run : RunCandidate}

theorem withinExactDays_eq (timestamp : Instant) {n : ℕ}
    (h : n ≠ 0 → minInstant ≤ now - days n) :
    withinExactDays timestamp now n = some (n != 0 && decide (now - days n ≤ timestamp)) := by
  unfold withinExactDays
  by_cases hzero : n = 0
  · simp [hzero]
  · have hcut : daysBefore now n = some (now - days n) := if_neg (not_lt.mpr (h hzero))
    simp [hzero, hcut]

theorem withinExactDays_none (timestamp : Instant) {n : ℕ} (hn : n ≠ 0)
    (h : now - days n < minInstant) : withinExactDays timestamp now n = none := by
  unfold withinExactDays
  have hcut : daysBefore now n = none := if_pos h
  rw [if_neg hn, hcut]
  rfl

/-- A run that is not completed is kept. -/
theorem runRetention_other (h : completed run = false) :
    ∃ reason, runRetention settings now run = some (true, reason) := by
  unfold completed at h
  rw [decide_eq_false_iff_not] at h
  unfold runRetention
  by_cases hactive : run.status ∈ activeRunStatuses
  · exact ⟨"Active run", if_pos hactive⟩
  · have hunknown : run.status ∉ knownRunStatuses := fun hknown => h ⟨hknown, hactive⟩
    rw [if_neg hactive, if_pos hunknown]
    exact ⟨_, rfl⟩

/-- A completed run is judged by the window of its own status. -/
theorem runRetention_completed (h : completed run = true) :
    ∃ reason : Bool → String, runRetention settings now run =
      (withinExactDays run.timestamp now (windowDays settings run.status)).map fun keep =>
        (keep, reason keep) := by
  unfold completed at h
  rw [decide_eq_true_eq] at h
  unfold runRetention windowDays
  rw [if_neg h.2, if_neg (not_not_intro h.1)]
  by_cases hunchanged : run.status ∈ unchangedRunStatuses
  · rw [if_pos hunchanged, if_pos hunchanged]
    exact ⟨_, rfl⟩
  · rw [if_neg hunchanged, if_neg hunchanged]
    by_cases hchanged : run.status ∈ changedRunStatuses
    · rw [if_pos hchanged, if_pos hchanged]
      exact ⟨_, rfl⟩
    · rw [if_neg hchanged, if_neg hchanged]
      exact ⟨_, rfl⟩

end OneRun

section Loop

variable {settings : RetentionSettings} {now : Instant}

/-- A decision in front of others keeps its own run only. -/
theorem mem_keptIds_cons {run x : RunCandidate} {rest : List RunCandidate}
    {others : List RetentionDecision} (hids : DistinctIds (run :: rest))
    (hothers : others.map (fun d => d.objectId) = rest.map fun run => run.objectId)
    (hx : x ∈ run :: rest) (keep : Bool) (reasons : List String) :
    x.objectId ∈ keptIds (⟨run.objectId, run.timestamp, keep, reasons⟩ :: others) ↔
      (x = run ∧ keep = true) ∨ (x ∈ rest ∧ x.objectId ∈ keptIds others) := by
  have hfresh : ∀ y ∈ rest, run.objectId ≠ y.objectId := (List.pairwise_cons.mp hids).1
  have hcons : x.objectId ∈
      keptIds (⟨run.objectId, run.timestamp, keep, reasons⟩ :: others) ↔
        (keep = true ∧ x.objectId = run.objectId) ∨ x.objectId ∈ keptIds others := by
    unfold keptIds
    cases keep <;> simp
  rw [hcons]
  have hrest : x.objectId ∈ keptIds others → x ∈ rest := by
    intro hkept
    obtain ⟨d, hd, hdx⟩ := List.mem_map.mp hkept
    have hmem : x.objectId ∈ others.map fun d => d.objectId := by
      rw [← hdx]
      exact List.mem_map_of_mem (List.mem_of_mem_filter hd)
    rw [hothers] at hmem
    obtain ⟨y, hy, hyx⟩ := List.mem_map.mp hmem
    rcases List.mem_cons.mp hx with rfl | hx
    · exact absurd hyx.symm (hfresh y hy)
    · exact hx
  constructor
  · rintro (⟨hkeep, hsame⟩ | hkept)
    · rcases List.mem_cons.mp hx with rfl | hx
      · exact Or.inl ⟨rfl, hkeep⟩
      · exact absurd hsame.symm (hfresh x hx)
    · exact Or.inr ⟨hrest hkept, hkept⟩
  · rintro (⟨rfl, hkeep⟩ | ⟨-, hkept⟩)
    · exact Or.inl ⟨hkeep, rfl⟩
    · exact Or.inr hkept

theorem runRetention_eq {run : RunCandidate} (hfit : completed run = true →
    windowDays settings run.status ≠ 0 →
      minInstant ≤ now - days (windowDays settings run.status)) :
    ∃ reason, runRetention settings now run =
      some (!completed run || inWindow settings now run, reason) := by
  cases hcompleted : completed run with
  | false => exact runRetention_other hcompleted
  | true =>
    obtain ⟨reason, hreason⟩ := @runRetention_completed settings now run hcompleted
    rw [withinExactDays_eq run.timestamp (hfit hcompleted)] at hreason
    exact ⟨_, hreason⟩

/-- The loop keeps the runs that are not completed, and of the others the first ones inside
their windows, as far as the limit leaves places. -/
theorem decideRuns_spec {runs : List RunCandidate} (retained : ℕ)
    (hids : DistinctIds runs) (hfit : WindowsFit settings runs now) :
    ∃ decisions, decideRuns settings now retained runs = some decisions ∧
      decisions.map (fun d => d.objectId) = runs.map (fun run => run.objectId) ∧
      ∀ run ∈ runs, run.objectId ∈ keptIds decisions ↔ completed run = false ∨
        run ∈ (runs.filter fun run => completed run && inWindow settings now run).take
          (settings.maxRunsPerTarget - retained) := by
  induction runs generalizing retained with
  | nil => exact ⟨[], rfl, rfl, nofun⟩
  | cons run rest ih =>
    have hrest : WindowsFit settings rest now := fun other hother =>
      hfit other (List.mem_cons_of_mem _ hother)
    have htail : DistinctIds rest := (List.pairwise_cons.mp hids).2
    have hnot : run ∉ rest := fun hrun => (List.pairwise_cons.mp hids).1 run hrun rfl
    obtain ⟨reason, hretention⟩ := runRetention_eq (hfit run List.mem_cons_self)
    unfold decideRuns
    rw [hretention, Option.bind_eq_bind, Option.bind_some]
    change ∃ decisions, (if (completed run && (!completed run || inWindow settings now run)) then
      _ else _) = some decisions ∧ _
    cases hcompleted : completed run with
    | false =>
      obtain ⟨others, hothers, hids', hkept⟩ := ih retained htail hrest
      refine ⟨_, by rw [hothers]; rfl, by simp [hids'], fun x hx => ?_⟩
      rw [mem_keptIds_cons hids hids' hx, List.filter_cons_of_neg (by simp [hcompleted])]
      rcases List.mem_cons.mp hx with rfl | hx
      · simp [hcompleted]
      · have hne : x ≠ run := fun h => hnot (h ▸ hx)
        simp [hne, hx, hkept x hx]
    | true =>
      cases hwindow : inWindow settings now run with
      | false =>
        obtain ⟨others, hothers, hids', hkept⟩ := ih retained htail hrest
        refine ⟨_, by rw [hothers]; rfl, by simp [hids'], fun x hx => ?_⟩
        rw [mem_keptIds_cons hids hids' hx, List.filter_cons_of_neg (by simp [hwindow])]
        rcases List.mem_cons.mp hx with rfl | hx
        · have htake : x ∉ (rest.filter fun run => completed run &&
              inWindow settings now run).take (settings.maxRunsPerTarget - retained) :=
            fun h => hnot (List.mem_of_mem_filter (List.mem_of_mem_take h))
          simp [hcompleted, hnot, htake]
        · have hne : x ≠ run := fun h => hnot (h ▸ hx)
          simp [hne, hx, hkept x hx]
      | true =>
        rw [List.filter_cons_of_pos (by simp [hcompleted, hwindow])]
        by_cases hfull : settings.maxRunsPerTarget ≤ retained
        · -- the limit is reached
          obtain ⟨others, hothers, hids', hkept⟩ := ih retained htail hrest
          refine ⟨_, by simp only [hfull, if_true, Bool.true_and, Bool.or_true]; rw [hothers]; rfl,
            by simp [hids'], fun x hx => ?_⟩
          rw [mem_keptIds_cons hids hids' hx]
          have hnone : settings.maxRunsPerTarget - retained = 0 := by omega
          rw [hnone] at hkept ⊢
          rcases List.mem_cons.mp hx with rfl | hx
          · simp [hcompleted, hnot]
          · have hne : x ≠ run := fun h => hnot (h ▸ hx)
            simp [hne, hx, hkept x hx]
        · obtain ⟨others, hothers, hids', hkept⟩ := ih (retained + 1) htail hrest
          refine ⟨_, by simp only [hfull, if_false, Bool.true_and, Bool.or_true]; rw [hothers]; rfl,
            by simp [hids'], fun x hx => ?_⟩
          rw [mem_keptIds_cons hids hids' hx]
          have hplaces : settings.maxRunsPerTarget - retained =
              settings.maxRunsPerTarget - (retained + 1) + 1 := by omega
          rw [hplaces, List.take_succ_cons, List.mem_cons]
          rcases List.mem_cons.mp hx with rfl | hx
          · simp
          · have hne : x ≠ run := fun h => hnot (h ▸ hx)
            simp [hne, hx, hkept x hx]

/-- A window that reaches before year 1 raises. -/
theorem windowsFit_of_decideRuns {runs : List RunCandidate} {retained : ℕ}
    {decisions : List RetentionDecision}
    (h : decideRuns settings now retained runs = some decisions) :
    WindowsFit settings runs now := by
  induction runs generalizing retained decisions with
  | nil => exact nofun
  | cons run rest ih =>
    unfold decideRuns at h
    obtain ⟨⟨keep, reason⟩, hretention, h⟩ := Option.bind_eq_some_iff.mp h
    have hrest : WindowsFit settings rest now := by
      dsimp only at h
      split at h
      · split at h
        · obtain ⟨others, hothers, -⟩ := Option.bind_eq_some_iff.mp h
          exact ih hothers
        · obtain ⟨others, hothers, -⟩ := Option.bind_eq_some_iff.mp h
          exact ih hothers
      · obtain ⟨others, hothers, -⟩ := Option.bind_eq_some_iff.mp h
        exact ih hothers
    intro other hother hcompleted hdays
    rcases List.mem_cons.mp hother with rfl | hother
    · by_contra hwindow
      obtain ⟨reasons, hreasons⟩ := @runRetention_completed settings now other hcompleted
      rw [withinExactDays_none _ hdays (not_le.mp hwindow), hretention] at hreasons
      cases hreasons
    · exact hrest other hother hcompleted hdays

end Loop

section Plan

variable {settings : RetentionSettings} {runs : List RunCandidate} {now : Instant}
  {decisions : List RetentionDecision}

theorem recency : Recency RunCandidate.newer := recency_newerBy _ _

theorem DistinctIds.perm {l m : List RunCandidate} (h : l.Perm m) (hm : DistinctIds m) :
    DistinctIds l :=
  (h.pairwise_iff fun hab => Ne.symm hab).mpr hm

theorem DistinctIds.nodup {l : List RunCandidate} (h : DistinctIds l) : l.Nodup :=
  h.imp fun hne hsame => hne (by rw [hsame])

theorem DistinctIds.objectIds {l : List RunCandidate} (h : DistinctIds l) :
    (l.map fun run => run.objectId).Nodup :=
  List.pairwise_map.mpr h

theorem pairwise_newest (h : DistinctIds runs) :
    (newestFirst RunCandidate.newer runs).Pairwise RunCandidate.newer :=
  NewestFirst.pairwise_newestFirst recency (h.imp fun hab => newerBy_or_newerBy hab)

/-- When the windows fit there is a plan, which keeps the runs that are not completed and the
newest ones of the others. -/
theorem planRuns_spec (hids : DistinctIds runs) (hfit : WindowsFit settings runs now) :
    ∃ decisions, planRuns settings runs now = some decisions ∧
      (decisions.map fun d => d.objectId).Perm (runs.map fun run => run.objectId) ∧
      ∀ run ∈ runs, run.objectId ∈ keptIds decisions ↔
        completed run = false ∨ run ∈ newestRuns settings runs now := by
  have hperm : (newestFirst RunCandidate.newer runs).Perm runs := newestFirst_perm runs
  obtain ⟨decisions, hplan, hmap, hkept⟩ := decideRuns_spec 0 (DistinctIds.perm hperm hids)
    (fun run hrun => hfit run (hperm.mem_iff.mp hrun))
  refine ⟨decisions, hplan, ?_, fun run hrun => ?_⟩
  · rw [hmap]
    exact hperm.map _
  · exact hkept run (hperm.mem_iff.mpr hrun)

/-- A completed run among the newest ones is so among fewer runs. -/
theorem newestRuns_subset {fewer : List RunCandidate} (hids : DistinctIds runs)
    (hfewer : fewer.Sublist runs) {run : RunCandidate} (hrun : run ∈ fewer)
    (h : run ∈ newestRuns settings runs now) : run ∈ newestRuns settings fewer now := by
  have hids' : DistinctIds fewer := hids.sublist hfewer
  unfold newestRuns at h ⊢
  rw [mem_take_filter_iff recency.asymm (pairwise_newest hids),
    newerCount_perm (newestFirst_perm runs)] at h
  rw [mem_take_filter_iff recency.asymm (pairwise_newest hids'),
    newerCount_perm (newestFirst_perm fewer), mem_newestFirst]
  refine ⟨hrun, h.2.1, lt_of_le_of_lt ?_ h.2.2⟩
  exact newerCount_le hids'.nodup fun other hother _ hnewer => ⟨hfewer.subset hother, hnewer⟩

/-- The planner plans the runs well exactly when no completed run has a window that reaches
before year 1. -/
theorem plansRuns_iff (hids : DistinctIds runs) :
    PlansRuns settings runs now ↔ WindowsFit settings runs now := by
  constructor
  · rintro ⟨decisions, hplan, -⟩
    intro run hrun
    exact windowsFit_of_decideRuns hplan run (mem_newestFirst.mpr hrun)
  · intro hfit
    obtain ⟨decisions, hplan, hperm, hkept⟩ := planRuns_spec hids hfit
    have hsub : (survivors runs decisions).Sublist runs := List.filter_sublist
    refine ⟨decisions, hplan, hperm, ?_, ?_, ?_⟩
    · intro run hrun hother
      exact (hkept run hrun).mpr (Or.inl hother)
    · intro run hrun hcompleted
      rw [hkept run hrun, hcompleted]
      exact or_iff_right (by decide)
    · have hids' : DistinctIds (survivors runs decisions) := hids.sublist hsub
      obtain ⟨again, hagain, hperm', hkept'⟩ := planRuns_spec hids'
        (fun run hrun => hfit run (hsub.subset hrun))
      refine ⟨again, hagain, fun d hd => ?_⟩
      obtain ⟨run, hrun, hrund⟩ := List.mem_map.mp (hperm'.subset (List.mem_map_of_mem hd))
      have hnodup : (again.map fun d => d.objectId).Nodup :=
        hperm'.nodup_iff.mpr hids'.objectIds
      apply keep_of_mem_keptIds hnodup hd
      rw [← hrund, hkept' run hrun]
      have hbefore : run.objectId ∈ keptIds decisions :=
        List.contains_iff_mem.mp (List.mem_filter.mp hrun).2
      exact ((hkept run (hsub.subset hrun)).mp hbefore).imp_right
        (newestRuns_subset hids hsub hrun)

end Plan

section Examples

def runSettings (failedRunDays : ℕ) : RetentionSettings :=
  { cappedSettings 30 with failedRunDays := failedRunDays }

def twoRuns : List RunCandidate := [⟨1, 0, "failed"⟩, ⟨2, 5, "running"⟩]

theorem plansRuns_iff_two :
    PlansRuns (runSettings 180) twoRuns 10 ↔ WindowsFit (runSettings 180) twoRuns 10 :=
  plansRuns_iff (by unfold DistinctIds twoRuns; decide)

/-- A period that is longer than the calendar raises instead of keeping every run. -/
theorem plansRuns_counterexample :
    ¬ ∀ (settings : RetentionSettings) (runs : List RunCandidate) (now : Instant),
      DistinctIds runs → PlansRuns settings runs now := by
  intro hall
  obtain ⟨decisions, hplan, -⟩ := hall (runSettings 1000000) twoRuns 10
    (by unfold DistinctIds twoRuns; decide)
  have hnone : planRuns (runSettings 1000000) twoRuns 10 = none := by decide +kernel
  rw [hnone] at hplan
  cases hplan

end Examples

end ConfigBackup.RunPlan
