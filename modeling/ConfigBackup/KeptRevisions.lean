import ConfigBackup.Retention
import Mathlib.Data.List.Dedup

/-!
What the planner keeps, said without its loops. A candidate is mandatory when
it is the newest or protected; it is retained when it is mandatory, among the
newest changed ones, recent, or the newest eligible candidate of its bucket.
A cap leaves the mandatory candidates and the newest other retained ones.
-/

namespace ConfigBackup.KeptRevisions

open Calendar Models NewestFirst Retention

/-- No candidate is newer. -/
def Latest (revisions : List RevisionCandidate) (r : RevisionCandidate) : Prop :=
  ∀ s ∈ revisions, ¬ s.newer r

def Mandatory (revisions : List RevisionCandidate) (r : RevisionCandidate) : Prop :=
  Latest revisions r ∨ r.isProtected = true

/-- The newest eligible candidate of its bucket. -/
def Sample {κ : Type} (eligible : RevisionCandidate → Bool) (bucket : RevisionCandidate → κ)
    (revisions : List RevisionCandidate) (r : RevisionCandidate) : Prop :=
  eligible r = true ∧ ∀ s ∈ revisions, s.newer r → eligible s = true → bucket s ≠ bucket r

def MinimumChanged (settings : RetentionSettings) (revisions : List RevisionCandidate)
    (r : RevisionCandidate) : Prop :=
  r.contentChanged = true ∧ newerCount RevisionCandidate.newer (fun s => s.contentChanged)
    revisions r < settings.minimumChangedRevisions

def Recent (settings : RetentionSettings) (now : Instant) (r : RevisionCandidate) : Prop :=
  settings.keepAllDays ≠ 0 ∧ now - days settings.keepAllDays ≤ r.created

def DailySample (settings : RetentionSettings) (revisions : List RevisionCandidate)
    (now : Instant) (r : RevisionCandidate) : Prop :=
  Sample (fun s => withinDays s.created now settings.dailyDays) (fun s => date s.created)
    revisions r

def WeeklySample (settings : RetentionSettings) (revisions : List RevisionCandidate)
    (now : Instant) (r : RevisionCandidate) : Prop :=
  Sample (fun s => withinWeeks s.created now settings.weeklyWeeks)
    (fun s => isoWeek (date s.created)) revisions r

def MonthlySample (settings : RetentionSettings) (revisions : List RevisionCandidate)
    (now : Instant) (r : RevisionCandidate) : Prop :=
  Sample (fun s => withinMonths s.created now settings.monthlyMonths)
    (fun s => (year (date s.created), month (date s.created))) revisions r

/-- Some retention rule other than the cap keeps the candidate. -/
def Retained (settings : RetentionSettings) (revisions : List RevisionCandidate)
    (now : Instant) (r : RevisionCandidate) : Prop :=
  Mandatory revisions r ∨ MinimumChanged settings revisions r ∨ Recent settings now r ∨
    DailySample settings revisions now r ∨ WeeklySample settings revisions now r ∨
    MonthlySample settings revisions now r

instance (revisions : List RevisionCandidate) : DecidablePred (Mandatory revisions) :=
  fun r => by unfold Mandatory Latest; infer_instance

instance (settings : RetentionSettings) (revisions : List RevisionCandidate) (now : Instant) :
    DecidablePred (Retained settings revisions now) := fun r => by
  unfold Retained MinimumChanged Recent DailySample WeeklySample MonthlySample Sample
  infer_instance

def mandatoryCount (revisions : List RevisionCandidate) : ℕ :=
  (revisions.filter (fun s => decide (Mandatory revisions s))).length

/-- Retained candidates that compete for the places a cap leaves. -/
def competes (settings : RetentionSettings) (revisions : List RevisionCandidate)
    (now : Instant) (s : RevisionCandidate) : Bool :=
  decide (Retained settings revisions now s) && !decide (Mandatory revisions s)

/-- The cap has a place for the candidate. -/
def WithinCap (settings : RetentionSettings) (revisions : List RevisionCandidate)
    (now : Instant) (r : RevisionCandidate) : Prop :=
  match settings.maxRevisionsPerTarget with
  | none | some 0 => True
  | some limit => Mandatory revisions r ∨
      newerCount RevisionCandidate.newer (competes settings revisions now) revisions r +
        mandatoryCount revisions < limit

def Kept (settings : RetentionSettings) (revisions : List RevisionCandidate)
    (now : Instant) (r : RevisionCandidate) : Prop :=
  Retained settings revisions now r ∧ WithinCap settings revisions now r

instance (settings : RetentionSettings) (revisions : List RevisionCandidate) (now : Instant) :
    DecidablePred (Kept settings revisions now) := fun r => by
  unfold Kept WithinCap
  split <;> infer_instance

/-- No rule and no cap removes the newest candidate. -/
theorem kept_of_latest {settings : RetentionSettings} {revisions : List RevisionCandidate}
    {now : Instant} {r : RevisionCandidate} (h : Latest revisions r) :
    Kept settings revisions now r := by
  have hmandatory : Mandatory revisions r := Or.inl h
  refine ⟨Or.inl hmandatory, ?_⟩
  unfold WithinCap
  split
  · trivial
  · trivial
  · exact Or.inl hmandatory

theorem recency : Recency RevisionCandidate.newer := recency_newerBy _ _

/-- A candidate list as the database gives it: one entry for each object id. -/
def DistinctIds (revisions : List RevisionCandidate) : Prop :=
  revisions.Pairwise (fun a b => a.objectId ≠ b.objectId)

theorem DistinctIds.eq_of_objectId_eq {revisions : List RevisionCandidate}
    (h : DistinctIds revisions) {a b : RevisionCandidate} (ha : a ∈ revisions)
    (hb : b ∈ revisions) (hab : a.objectId = b.objectId) : a = b := by
  have hnodup : (revisions.map (fun r => r.objectId)).Nodup := by
    rw [List.Nodup, List.pairwise_map]
    exact h
  exact List.inj_on_of_nodup_map hnodup ha hb hab

theorem DistinctIds.perm {l m : List RevisionCandidate} (h : l.Perm m) (hm : DistinctIds m) :
    DistinctIds l := by
  unfold DistinctIds at *
  exact (h.pairwise_iff (fun hab => Ne.symm hab)).mpr hm

theorem DistinctIds.pairwise_newestFirst {revisions : List RevisionCandidate}
    (h : DistinctIds revisions) :
    (newestFirst RevisionCandidate.newer revisions).Pairwise RevisionCandidate.newer :=
  NewestFirst.pairwise_newestFirst recency (h.imp (fun hab => newerBy_or_newerBy hab))

section Reasons

theorem mem_markEach {reasons : Reasons} {reason t : String} {items : List RevisionCandidate}
    {r : RevisionCandidate} (hinj : ∀ s ∈ items, s.objectId = r.objectId → s = r) :
    t ∈ markEach reasons reason items r.objectId ↔
      t ∈ reasons r.objectId ∨ (t = reason ∧ r ∈ items) := by
  unfold markEach
  induction items generalizing reasons with
  | nil => simp
  | cons s items ih =>
    rw [List.foldl_cons, ih (fun u hu => hinj u (List.mem_cons_of_mem s hu))]
    have hs := hinj s List.mem_cons_self
    by_cases hid : r.objectId = s.objectId
    · have hsr : s = r := hs hid.symm
      subst hsr
      simp only [Reasons.append, if_true, List.mem_append, List.mem_cons]
      tauto
    · have hne : r ≠ s := fun h => hid (by rw [h])
      simp only [Reasons.append, if_neg hid, List.mem_cons, hne, false_or]

variable {settings : RetentionSettings} {ordered : List RevisionCandidate}
  {cutoff now : Instant} {r : RevisionCandidate}

/-- Each reason of a candidate is one of the rules that hold for it. -/
theorem mem_revisionReasons (hsorted : ordered.Pairwise RevisionCandidate.newer)
    (hids : DistinctIds ordered) (hr : r ∈ ordered)
    (hcutoff : daysBefore now settings.keepAllDays = some cutoff) (t : String) :
    t ∈ revisionReasons settings ordered cutoff now r.objectId ↔
      (t = "Latest revision" ∧ Latest ordered r) ∨
      (t = "Protected revision" ∧ r.isProtected = true) ∨
      (t = "Minimum changed revisions" ∧ MinimumChanged settings ordered r) ∨
      (t = "Recent revision" ∧ Recent settings now r) ∨
      (t = "Daily sample" ∧ DailySample settings ordered now r) ∨
      (t = "Weekly sample" ∧ WeeklySample settings ordered now r) ∨
      (t = "Monthly sample" ∧ MonthlySample settings ordered now r) := by
  have hcut : cutoff = now - days settings.keepAllDays := by
    unfold daysBefore at hcutoff
    split at hcutoff
    · cases hcutoff
    · exact (Option.some.inj hcutoff).symm
  have hinj : ∀ items : List RevisionCandidate, (∀ s ∈ items, s ∈ ordered) →
      ∀ s ∈ items, s.objectId = r.objectId → s = r :=
    fun items hsub s hs hid => hids.eq_of_objectId_eq (hsub s hs) hr hid
  have hbucket : ∀ {κ : Type} [DecidableEq κ] (eligible : RevisionCandidate → Bool)
      (bucket : RevisionCandidate → κ), ∀ s ∈ firstPerBucket eligible bucket [] ordered,
      s.objectId = r.objectId → s = r :=
    fun eligible bucket => hinj _ (fun s hs => (firstPerBucket_sublist _ _ _ _).subset hs)
  have hsample : ∀ {κ : Type} [DecidableEq κ] (eligible : RevisionCandidate → Bool)
      (bucket : RevisionCandidate → κ),
      r ∈ firstPerBucket eligible bucket [] ordered ↔ Sample eligible bucket ordered r := by
    intro κ _ eligible bucket
    rw [mem_firstPerBucket_iff recency.asymm hsorted]
    simp [Sample, hr]
  have hlatest : r ∈ ordered.take 1 ↔ Latest ordered r := by
    rw [mem_take_one_iff recency.asymm hsorted]
    simp [Latest, hr]
  have hchanged : r ∈ (ordered.filter (fun s => s.contentChanged)).take
      settings.minimumChangedRevisions ↔ MinimumChanged settings ordered r := by
    rw [mem_take_filter_iff recency.asymm hsorted]
    simp [MinimumChanged, hr]
  have hrecent : ∀ reasons : Reasons, t ∈ (if settings.keepAllDays = 0 then reasons
      else markEach reasons "Recent revision"
        (ordered.filter (fun s => decide (cutoff ≤ s.created)))) r.objectId ↔
      t ∈ reasons r.objectId ∨ (t = "Recent revision" ∧ Recent settings now r) := by
    intro reasons
    by_cases hzero : settings.keepAllDays = 0
    · simp [hzero, Recent]
    · rw [if_neg hzero, mem_markEach (hinj _ (fun s hs => List.mem_of_mem_filter hs))]
      simp [Recent, hzero, hr, hcut]
  simp only [revisionReasons, markLatestPerBucket]
  rw [mem_markEach (hbucket _ _), mem_markEach (hbucket _ _), mem_markEach (hbucket _ _),
    hrecent,
    mem_markEach (hinj _ (fun s hs => List.mem_of_mem_filter (List.mem_of_mem_take hs))),
    mem_markEach (hinj _ (fun s hs => List.mem_of_mem_filter hs)),
    mem_markEach (hinj _ (fun s hs => List.mem_of_mem_take hs)),
    hsample, hsample, hsample, hlatest, hchanged]
  simp only [List.not_mem_nil, false_or, List.mem_filter, hr, true_and, or_assoc]
  rfl

end Reasons

section Decisions

variable {settings : RetentionSettings} {ordered : List RevisionCandidate}
  {cutoff now : Instant} {r : RevisionCandidate}

theorem keep_iff_retained (hsorted : ordered.Pairwise RevisionCandidate.newer)
    (hids : DistinctIds ordered) (hr : r ∈ ordered)
    (hcutoff : daysBefore now settings.keepAllDays = some cutoff) :
    (revisionDecision (revisionReasons settings ordered cutoff now) r).keep = true ↔
      Retained settings ordered now r := by
  have hkeep : (revisionDecision (revisionReasons settings ordered cutoff now) r).keep = true ↔
      ∃ t, t ∈ revisionReasons settings ordered cutoff now r.objectId := by
    simp [revisionDecision, List.eq_nil_iff_forall_not_mem]
  rw [hkeep]
  simp only [mem_revisionReasons hsorted hids hr hcutoff, exists_or, exists_eq_left]
  unfold Retained Mandatory
  rw [or_assoc]

theorem mandatoryDecision_iff (hsorted : ordered.Pairwise RevisionCandidate.newer)
    (hids : DistinctIds ordered) (hr : r ∈ ordered)
    (hcutoff : daysBefore now settings.keepAllDays = some cutoff) :
    mandatoryDecision (revisionDecision (revisionReasons settings ordered cutoff now) r) = true ↔
      Mandatory ordered r := by
  have hlatest := mem_revisionReasons hsorted hids hr hcutoff "Latest revision"
  have hprotected := mem_revisionReasons hsorted hids hr hcutoff "Protected revision"
  simp only [true_and, String.reduceEq, false_and, or_false, false_or] at hlatest hprotected
  unfold mandatoryDecision revisionDecision Mandatory
  rw [← hlatest, ← hprotected]
  generalize revisionReasons settings ordered cutoff now r.objectId = reasons
  cases reasons <;> simp

end Decisions

section Cap

theorem expired_cons (d : RetentionDecision) (l : List RetentionDecision) (k : ℕ) :
    k ∈ expired (d :: l) ↔ (d.keep = false ∧ k = d.objectId) ∨ k ∈ expired l := by
  unfold expired
  cases hd : d.keep <;> simp [hd]

theorem exists_of_mem_expired_capDecisions {mandatory : List ℕ} {remaining k : ℕ}
    {l : List RetentionDecision} (h : k ∈ expired (capDecisions mandatory remaining l)) :
    ∃ d ∈ l, d.objectId = k := by
  induction l generalizing remaining with
  | nil => cases h
  | cons d l ih =>
    have hcases : k = d.objectId ∨ ∃ m, k ∈ expired (capDecisions mandatory m l) := by
      unfold capDecisions at h
      split at h
      · rcases (expired_cons ..).mp h with ⟨_, hk⟩ | hk
        · exact Or.inl hk
        · exact Or.inr ⟨_, hk⟩
      · split at h
        · rcases (expired_cons ..).mp h with ⟨_, hk⟩ | hk
          · exact Or.inl hk
          · exact Or.inr ⟨_, hk⟩
        · rcases (expired_cons ..).mp h with ⟨_, hk⟩ | hk
          · exact Or.inl hk
          · exact Or.inr ⟨_, hk⟩
    rcases hcases with hk | ⟨m, hm⟩
    · exact ⟨d, List.mem_cons_self, hk.symm⟩
    · obtain ⟨e, he, hek⟩ := ih hm
      exact ⟨e, List.mem_cons_of_mem d he, hek⟩

/-- The cap keeps a kept decision that is mandatory or among the first
`remaining` of the other kept ones. -/
theorem mem_expired_capDecisions {mandatory : List ℕ} {remaining : ℕ}
    {l : List RetentionDecision} (hids : l.Pairwise (fun a b => a.objectId ≠ b.objectId))
    {d : RetentionDecision} (hd : d ∈ l) :
    d.objectId ∈ expired (capDecisions mandatory remaining l) ↔
      ¬ (d.keep = true ∧ (d.objectId ∈ mandatory ∨
        d ∈ (l.filter (fun e => e.keep && !mandatory.contains e.objectId)).take remaining)) := by
  induction l generalizing remaining with
  | nil => cases hd
  | cons e l ih =>
    obtain ⟨hne, htail⟩ := List.pairwise_cons.mp hids
    have hfresh : ∀ m, e.objectId ∉ expired (capDecisions mandatory m l) := by
      intro m hm
      obtain ⟨f, hf, hfe⟩ := exists_of_mem_expired_capDecisions hm
      exact hne f hf hfe.symm
    rcases List.mem_cons.mp hd with hde | hdl
    · subst hde
      unfold capDecisions
      by_cases hkeep : d.keep = true
      · by_cases hmand : d.objectId ∈ mandatory
        · rw [if_pos (by simp [hmand]), expired_cons]
          simp [hkeep, hmand, hfresh]
        · rw [if_neg (by simp [hkeep, hmand]), List.filter_cons_of_pos (by simp [hkeep, hmand])]
          cases remaining with
          | zero =>
            rw [if_neg (by simp), expired_cons]
            simp [hmand]
          | succ n =>
            rw [if_pos (by simp), expired_cons]
            simp [hkeep, hfresh]
      · rw [if_pos (by simp [hkeep]), expired_cons]
        simp [hkeep]
    · have hdne : d.objectId ≠ e.objectId := Ne.symm (hne d hdl)
      have hde : d ≠ e := fun h => hdne (by rw [h])
      unfold capDecisions
      by_cases hpass : e.keep = true ∧ e.objectId ∉ mandatory
      · rw [if_neg (by simp [hpass]), List.filter_cons_of_pos (by simp [hpass])]
        cases remaining with
        | zero =>
          rw [if_neg (by simp), expired_cons, ih htail hdl]
          simp [hdne]
        | succ n =>
          rw [if_pos (by simp), expired_cons, Nat.add_sub_cancel, ih htail hdl,
            List.take_succ_cons]
          simp [hdne, hde]
      · have hskip : (!e.keep || mandatory.contains e.objectId) = true := by
          by_cases hkeep : e.keep = true
          · have hmand : e.objectId ∈ mandatory := by
              by_contra hnot
              exact hpass ⟨hkeep, hnot⟩
            simp [hmand]
          · simp [hkeep]
        rw [if_pos hskip, expired_cons, ih htail hdl,
          List.filter_cons_of_neg (by simpa using hpass)]
        simp [hdne]

end Cap

section Plan

variable {settings : RetentionSettings} {revisions : List RevisionCandidate} {now : Instant}

theorem latest_perm {l m : List RevisionCandidate} (h : l.Perm m) (r : RevisionCandidate) :
    Latest l r ↔ Latest m r :=
  ⟨fun hl s hs => hl s (h.mem_iff.mpr hs), fun hm s hs => hm s (h.mem_iff.mp hs)⟩

theorem mandatory_perm {l m : List RevisionCandidate} (h : l.Perm m) (r : RevisionCandidate) :
    Mandatory l r ↔ Mandatory m r := by
  unfold Mandatory
  rw [latest_perm h]

theorem sample_perm {κ : Type} {eligible : RevisionCandidate → Bool}
    {bucket : RevisionCandidate → κ} {l m : List RevisionCandidate} (h : l.Perm m)
    (r : RevisionCandidate) : Sample eligible bucket l r ↔ Sample eligible bucket m r := by
  unfold Sample
  simp only [h.mem_iff]

theorem retained_perm {l m : List RevisionCandidate} (h : l.Perm m) (r : RevisionCandidate) :
    Retained settings l now r ↔ Retained settings m now r := by
  unfold Retained MinimumChanged DailySample WeeklySample MonthlySample
  rw [mandatory_perm h, newerCount_perm h, sample_perm h, sample_perm h, sample_perm h]

theorem competes_perm {l m : List RevisionCandidate} (h : l.Perm m) :
    competes settings l now = competes settings m now := by
  funext s
  simp only [competes, retained_perm h, mandatory_perm h]

theorem mandatoryCount_perm {l m : List RevisionCandidate} (h : l.Perm m) :
    mandatoryCount l = mandatoryCount m := by
  unfold mandatoryCount
  simp only [mandatory_perm h]
  exact (h.filter _).length_eq

theorem kept_perm {l m : List RevisionCandidate} (h : l.Perm m) (r : RevisionCandidate) :
    Kept settings l now r ↔ Kept settings m now r := by
  unfold Kept WithinCap
  rw [retained_perm h, mandatory_perm h, competes_perm h, newerCount_perm h,
    mandatoryCount_perm h]

/-- A window that reaches before year 1 is the only way to have no plan. -/
theorem planRevisions_isSome_iff :
    (planRevisions settings revisions now).isSome ↔
      (daysBefore now settings.keepAllDays).isSome := by
  unfold planRevisions
  cases hcut : daysBefore now settings.keepAllDays with
  | none => simp
  | some cutoff =>
    simp only [Option.bind_eq_bind, Option.bind_some, Option.isSome_some, iff_true]
    split <;> rfl

section Lists

variable {ordered : List RevisionCandidate} {dec : RevisionCandidate → RetentionDecision}
  {r : RevisionCandidate}

theorem mem_map_decision {l : List RevisionCandidate} (hids : DistinctIds ordered)
    (hdec : ∀ s, (dec s).objectId = s.objectId) (hr : r ∈ ordered)
    (hl : ∀ s ∈ l, s ∈ ordered) : dec r ∈ l.map dec ↔ r ∈ l := by
  constructor
  · intro h
    obtain ⟨s, hs, hsr⟩ := List.mem_map.mp h
    have hid : s.objectId = r.objectId := by rw [← hdec s, hsr, hdec r]
    exact hids.eq_of_objectId_eq (hl s hs) hr hid ▸ hs
  · exact List.mem_map_of_mem

theorem mem_expired_map (hids : DistinctIds ordered)
    (hdec : ∀ s, (dec s).objectId = s.objectId) (hr : r ∈ ordered) :
    r.objectId ∈ expired (ordered.map dec) ↔ ¬ (dec r).keep = true := by
  unfold expired
  constructor
  · intro h
    obtain ⟨d, hd, hdr⟩ := List.mem_map.mp h
    obtain ⟨hd, hkeep⟩ := List.mem_filter.mp hd
    obtain ⟨s, hs, rfl⟩ := List.mem_map.mp hd
    have hsr := hids.eq_of_objectId_eq hs hr (by rw [← hdec s, hdr])
    simpa [hsr] using hkeep
  · intro h
    refine List.mem_map.mpr ⟨dec r, List.mem_filter.mpr ⟨List.mem_map_of_mem hr, ?_⟩, hdec r⟩
    simpa using h

theorem mem_mandatoryIds (hids : DistinctIds ordered)
    (hdec : ∀ s, (dec s).objectId = s.objectId) (hr : r ∈ ordered) :
    r.objectId ∈ ((ordered.map dec).filter mandatoryDecision).map (fun d => d.objectId) ↔
      mandatoryDecision (dec r) = true := by
  constructor
  · intro h
    obtain ⟨d, hd, hdr⟩ := List.mem_map.mp h
    obtain ⟨hd, hmand⟩ := List.mem_filter.mp hd
    obtain ⟨s, hs, rfl⟩ := List.mem_map.mp hd
    rwa [hids.eq_of_objectId_eq hs hr (by rw [← hdec s, hdr])] at hmand
  · intro h
    exact List.mem_map.mpr
      ⟨dec r, List.mem_filter.mpr ⟨List.mem_map_of_mem hr, h⟩, hdec r⟩

theorem length_mandatoryIds (hids : DistinctIds ordered)
    (hdec : ∀ s, (dec s).objectId = s.objectId) :
    (((ordered.map dec).filter mandatoryDecision).map (fun d => d.objectId)).dedup.length =
      (ordered.filter (fun s => mandatoryDecision (dec s))).length := by
  have hnodup : (((ordered.map dec).filter mandatoryDecision).map (fun d => d.objectId)).Nodup := by
    rw [List.filter_map, List.map_map, List.Nodup, List.pairwise_map]
    simp only [Function.comp_apply, hdec]
    exact List.Pairwise.filter _ hids
  rw [hnodup.dedup, List.length_map, List.filter_map, List.length_map]
  rfl

end Lists

theorem exists_of_mem_expired_planRevisions {decisions : List RetentionDecision} {k : ℕ}
    (hplan : planRevisions settings revisions now = some decisions)
    (hk : k ∈ expired decisions) : ∃ r ∈ revisions, r.objectId = k := by
  unfold planRevisions at hplan
  cases hcut : daysBefore now settings.keepAllDays with
  | none => simp [hcut] at hplan
  | some cutoff =>
    have hsource : ∃ d ∈ (newestFirst RevisionCandidate.newer revisions).map (revisionDecision
        (revisionReasons settings (newestFirst RevisionCandidate.newer revisions) cutoff now)),
        d.objectId = k := by
      simp only [hcut, Option.bind_eq_bind, Option.bind_some] at hplan
      split at hplan
      all_goals
        rw [Option.pure_def, Option.some.injEq] at hplan
        subst hplan
      · obtain ⟨d, hd, hdk⟩ := List.mem_map.mp hk
        exact ⟨d, List.mem_of_mem_filter hd, hdk⟩
      · obtain ⟨d, hd, hdk⟩ := List.mem_map.mp hk
        exact ⟨d, List.mem_of_mem_filter hd, hdk⟩
      · exact exists_of_mem_expired_capDecisions hk
    obtain ⟨d, hd, hdk⟩ := hsource
    obtain ⟨r, hr, rfl⟩ := List.mem_map.mp hd
    exact ⟨r, mem_newestFirst.mp hr, hdk⟩

/-- With a cap, a decision expires unless its candidate is retained and either
mandatory or within the places that the mandatory ones leave. -/
theorem mem_expired_capped {ordered : List RevisionCandidate}
    {dec : RevisionCandidate → RetentionDecision} {limit : ℕ} {r : RevisionCandidate}
    (hperm : ordered.Perm revisions) (hsorted : ordered.Pairwise RevisionCandidate.newer)
    (hids : DistinctIds ordered) (hid : ∀ s, (dec s).objectId = s.objectId)
    (hkeep : ∀ s ∈ ordered, (dec s).keep = true ↔ Retained settings revisions now s)
    (hmand : ∀ s ∈ ordered, mandatoryDecision (dec s) = true ↔ Mandatory revisions s)
    (hr : r ∈ ordered) :
    r.objectId ∈ expired (capDecisions
      (((ordered.map dec).filter mandatoryDecision).map (fun d => d.objectId)).dedup
      (limit - (((ordered.map dec).filter mandatoryDecision).map
        (fun d => d.objectId)).dedup.length) (ordered.map dec)) ↔
      ¬ (Retained settings revisions now r ∧ (Mandatory revisions r ∨
        newerCount RevisionCandidate.newer (competes settings revisions now) revisions r +
          mandatoryCount revisions < limit)) := by
  generalize hM : (((ordered.map dec).filter mandatoryDecision).map
    (fun d => d.objectId)).dedup = mandatory
  have hdistinct : (ordered.map dec).Pairwise (fun a b => a.objectId ≠ b.objectId) := by
    rw [List.pairwise_map]
    simp only [hid]
    exact hids
  have hmem : ∀ s ∈ ordered, s.objectId ∈ mandatory ↔ Mandatory revisions s := by
    intro s hs
    rw [← hM, List.mem_dedup, ← hmand s hs]
    exact mem_mandatoryIds hids hid hs
  have hlen : mandatory.length = mandatoryCount revisions := by
    rw [← hM, length_mandatoryIds hids hid, mandatoryCount, ← (hperm.filter _).length_eq]
    congr 1
    exact List.filter_congr (fun s hs => by simp [← hmand s hs])
  have hcompetes : (ordered.map dec).filter
      (fun e => e.keep && !mandatory.contains e.objectId) =
      (ordered.filter (competes settings revisions now)).map dec := by
    rw [List.filter_map]
    congr 1
    refine List.filter_congr (fun s hs => ?_)
    simp [competes, ← hkeep s hs, ← hmem s hs, hid]
  have hplaces : ∀ n : ℕ, n < limit - mandatoryCount revisions ↔
      n + mandatoryCount revisions < limit := fun n => by omega
  have hcomp : Retained settings revisions now r → ¬ Mandatory revisions r →
      competes settings revisions now r = true := fun h h' => by simp [competes, h, h']
  rw [← hid r, mem_expired_capDecisions hdistinct (List.mem_map_of_mem hr), hcompetes, hid,
    hkeep r hr, hmem r hr, ← List.map_take, mem_map_decision hids hid hr
      (fun s hs => List.mem_of_mem_filter (List.mem_of_mem_take hs)),
    mem_take_filter_iff recency.asymm hsorted, newerCount_perm hperm, hlen, hplaces]
  by_cases hm : Mandatory revisions r
  · simp [hm]
  · by_cases hret : Retained settings revisions now r
    · simp [hm, hret, hr, hcomp hret hm]
    · simp [hret]

/-- The plan expires exactly the candidates that no rule keeps. -/
theorem mem_expired_planRevisions {decisions : List RetentionDecision}
    (hids : DistinctIds revisions)
    (hplan : planRevisions settings revisions now = some decisions)
    {r : RevisionCandidate} (hr : r ∈ revisions) :
    r.objectId ∈ expired decisions ↔ ¬ Kept settings revisions now r := by
  have hperm : (newestFirst RevisionCandidate.newer revisions).Perm revisions :=
    newestFirst_perm revisions
  have hsorted := hids.pairwise_newestFirst
  have hids' := DistinctIds.perm hperm hids
  have hr' := hperm.mem_iff.mpr hr
  unfold planRevisions at hplan
  generalize newestFirst RevisionCandidate.newer revisions = ordered at *
  cases hcut : daysBefore now settings.keepAllDays with
  | none => simp [hcut] at hplan
  | some cutoff =>
    have hkeep : ∀ s ∈ ordered,
        (revisionDecision (revisionReasons settings ordered cutoff now) s).keep = true ↔
          Retained settings revisions now s :=
      fun s hs => (keep_iff_retained hsorted hids' hs hcut).trans (retained_perm hperm s)
    have hmand : ∀ s ∈ ordered,
        mandatoryDecision (revisionDecision (revisionReasons settings ordered cutoff now) s) =
          true ↔ Mandatory revisions s :=
      fun s hs => (mandatoryDecision_iff hsorted hids' hs hcut).trans (mandatory_perm hperm s)
    simp only [hcut, Option.bind_eq_bind, Option.bind_some] at hplan
    generalize hdec : revisionDecision (revisionReasons settings ordered cutoff now) = dec at *
    have hid : ∀ s, (dec s).objectId = s.objectId := fun s => by rw [← hdec]; rfl
    have huncapped : r.objectId ∈ expired (ordered.map dec) ↔
        ¬ Retained settings revisions now r := by
      rw [mem_expired_map hids' hid hr', hkeep r hr']
    unfold Kept WithinCap
    cases hcap : settings.maxRevisionsPerTarget with
    | none =>
      simp only [hcap, Option.pure_def, Option.some.injEq] at hplan
      rw [← hplan, huncapped]
      simp only [and_true]
    | some limit =>
      cases limit with
      | zero =>
        simp only [hcap, Option.pure_def, Option.some.injEq] at hplan
        rw [← hplan, huncapped]
        simp only [and_true]
      | succ limit =>
        simp only [hcap, Option.pure_def, Option.some.injEq] at hplan
        rw [← hplan]
        exact mem_expired_capped hperm hsorted hids' hid hkeep hmand hr'

end Plan

end ConfigBackup.KeptRevisions
