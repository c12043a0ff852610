import ConfigBackup.CeragonBackfill

/-!
The change flags that the backfill computes again. A revision is flagged when it is the
first one of its target or its hash differs from the one before it. Computing the flags of
one target reads and writes nothing of another one, so the rows after it can be written
down for any set of targets.
-/

namespace ConfigBackup.BackfillFlags

open BackupPipeline Calendar CeragonBackfill Models NewestFirst RevisionChain Tables

section Flags

/-- Each revision with its flag, given the hash before the first one. -/
def changeFlags : Option String → List ConfigRevision → List (ConfigRevision × Bool)
  | _, [] => []
  | previousHash, revision :: rest =>
    (revision, previousHash != some revision.normalizedHash) ::
      changeFlags (some revision.normalizedHash) rest

def lastChange (flags : List (ConfigRevision × Bool)) : Option Instant :=
  ((flags.filter (fun flag => flag.2)).getLast?).map (fun flag => flag.1.created)

def targetFlags (db : Database) (targetId : ℕ) : List (ConfigRevision × Bool) :=
  changeFlags none (ceragonRevisions db targetId)

/-- The flags of the revisions, the statuses of their runs and the last change of the target
agree with the hashes of consecutive revisions. -/
structure FlagsConsistent (db : Database) (targetId : ℕ) : Prop where
  flags : ∀ flag ∈ targetFlags db targetId, flag.1.contentChanged = flag.2
  runs : ∀ flag ∈ targetFlags db targetId, flag.2 = false →
    ∀ run ∈ db.runs, run.revision = some flag.1.pk → run.status ≠ .successChanged
  lastChange : ∀ changedAt, lastChange (targetFlags db targetId) = some changedAt →
    ∀ target ∈ db.targets, target.pk = targetId → target.lastChangeAt = some changedAt

/-- The flag under each key. -/
def keyedFlags (db : Database) (targetId : ℕ) : List (ℕ × Bool) :=
  (targetFlags db targetId).map (fun flag => (flag.1.pk, flag.2))

def setFlag (flags : List (ℕ × Bool)) (r : ConfigRevision) : ConfigRevision :=
  match flags.find? (fun flag => flag.1 == r.pk) with
  | none => r
  | some flag => { r with contentChanged := flag.2 }

def correctRun (unchanged : ℕ → Bool) (run : BackupRun) : BackupRun :=
  if run.revision.any unchanged && run.status == .successChanged then
    { run with status := .successUnchanged, changed := false } else run

def setLastChange (lastChangedAt : Option Instant) (target : BackupTarget) : BackupTarget :=
  match lastChangedAt with
  | none => target
  | some changedAt => { target with lastChangeAt := some changedAt }

@[simp] theorem setFlag_pk (flags : List (ℕ × Bool)) (r : ConfigRevision) :
    (setFlag flags r).pk = r.pk := by
  unfold setFlag
  split <;> rfl

@[simp] theorem correctRun_pk (unchanged : ℕ → Bool) (run : BackupRun) :
    (correctRun unchanged run).pk = run.pk := by
  unfold correctRun
  split <;> rfl

@[simp] theorem setLastChange_pk (lastChangedAt : Option Instant) (target : BackupTarget) :
    (setLastChange lastChangedAt target).pk = target.pk := by
  unfold setLastChange
  split <;> rfl

def flagRevision (db : Database) (p : ℕ → Bool) (r : ConfigRevision) : ConfigRevision :=
  if p r.target then setFlag (keyedFlags db r.target) r else r

/-- The key of a revision that is unchanged, of one of the targets. -/
def unchangedKey (db : Database) (p : ℕ → Bool) (k : ℕ) : Bool :=
  (db.revisions.get? k).any (fun r => p r.target && (keyedFlags db r.target).contains (k, false))

def flagTarget (db : Database) (p : ℕ → Bool) (target : BackupTarget) : BackupTarget :=
  if p target.pk then setLastChange (lastChange (targetFlags db target.pk)) target else target

@[simp] theorem flagRevision_pk (db : Database) (p : ℕ → Bool) (r : ConfigRevision) :
    (flagRevision db p r).pk = r.pk := by
  unfold flagRevision
  split <;> simp

@[simp] theorem flagTarget_pk (db : Database) (p : ℕ → Bool) (target : BackupTarget) :
    (flagTarget db p target).pk = target.pk := by
  unfold flagTarget
  split <;> simp

/-- The rows with the flags of some of the targets. -/
def flagged (db : Database) (p : ℕ → Bool) : Database :=
  { db with
    revisions := db.revisions.map (flagRevision db p) (flagRevision_pk db p)
    runs := db.runs.map (correctRun (unchangedKey db p)) (correctRun_pk _)
    targets := db.targets.map (flagTarget db p) (flagTarget_pk db p) }

end Flags

section Loop

variable {db : Database} {previousHash : Option String} {l : List ConfigRevision}

theorem changeFlags_cons (previousHash : Option String) (r : ConfigRevision)
    (rest : List ConfigRevision) : changeFlags previousHash (r :: rest) =
      (r, previousHash != some r.normalizedHash) :: changeFlags (some r.normalizedHash) rest := rfl

theorem keys_changeFlags (previousHash : Option String) (l : List ConfigRevision) :
    (changeFlags previousHash l).map (fun flag => flag.1) = l := by
  induction l generalizing previousHash with
  | nil => rfl
  | cons r rest ih =>
    rw [changeFlags_cons, List.map_cons, ih]

theorem mem_of_mem_changeFlags {flag : ConfigRevision × Bool}
    (h : flag ∈ changeFlags previousHash l) : flag.1 ∈ l := by
  have hmem := List.mem_map_of_mem h (f := fun flag => flag.1)
  rw [keys_changeFlags] at hmem
  exact hmem

/-- The flags depend on the hashes only. -/
theorem changeFlags_map {g : ConfigRevision → ConfigRevision}
    (hg : ∀ r, (g r).normalizedHash = r.normalizedHash) :
    changeFlags previousHash (l.map g) =
      (changeFlags previousHash l).map (fun flag => (g flag.1, flag.2)) := by
  induction l generalizing previousHash with
  | nil => rfl
  | cons r rest ih =>
    rw [List.map_cons, changeFlags_cons, changeFlags_cons, hg, ih, List.map_cons]

theorem lastChange_cons (r : ConfigRevision) (changed : Bool)
    (flags : List (ConfigRevision × Bool)) :
    lastChange ((r, changed) :: flags) =
      (lastChange flags).or (if changed then some r.created else none) := by
  unfold lastChange
  cases changed with
  | false => simp
  | true =>
    rw [List.filter_cons_of_pos rfl, List.getLast?_cons]
    cases (flags.filter (fun flag => flag.2)).getLast? with
    | none => rfl
    | some flag => rfl

theorem correctRun_correctRun (unchanged more : ℕ → Bool) (run : BackupRun) :
    correctRun more (correctRun unchanged run) =
      correctRun (fun k => unchanged k || more k) run := by
  obtain ⟨pk, target, queuedAt, startedAt, finishedAt, status, errorCode, errorMessage, revision,
    changed, rawChanged, jobId⟩ := run
  cases revision with
  | none => rfl
  | some k =>
    cases hunchanged : unchanged k with
    | false => simp [correctRun, hunchanged]
    | true =>
      by_cases hstatus : status = .successChanged
      · simp [correctRun, hunchanged, hstatus]
      · simp [correctRun, hunchanged, hstatus]

/-- Saving the flag that a row has already changes nothing. -/
theorem saveContentChanged_same {revision : ConfigRevision} (h : revision ∈ db.revisions)
    {changed : Bool} (hsame : revision.contentChanged = changed) :
    saveContentChanged db revision.pk changed = db := by
  have hrevisions : db.revisions.update revision.pk
      (fun r => { r with contentChanged := changed }) (fun _ => rfl) = db.revisions := by
    apply Table.ext
    · refine (List.map_congr_left (fun r hr => ?_)).trans (List.map_id _)
      by_cases hk : r.pk = revision.pk
      · rw [if_pos hk, db.revisions.eq_of_key_eq hr h hk, ← hsame]
        rfl
      · rw [if_neg hk]
        rfl
    · rfl
  unfold saveContentChanged
  rw [hrevisions]

theorem setFlag_cons {k : ℕ} {changed : Bool} {flags : List (ℕ × Bool)}
    (h : ∀ flag ∈ flags, flag.1 ≠ k) (r : ConfigRevision) :
    setFlag flags (if r.pk = k then { r with contentChanged := changed } else r) =
      setFlag ((k, changed) :: flags) r := by
  by_cases hk : r.pk = k
  · have hnone : flags.find? (fun flag => flag.1 == k) = none :=
      List.find?_eq_none.mpr (fun flag hflag => by simpa using h flag hflag)
    rw [if_pos hk]
    unfold setFlag
    simp [hk, hnone]
  · have hskip : ((k, changed) :: flags).find? (fun flag => flag.1 == r.pk) =
        flags.find? (fun flag => flag.1 == r.pk) :=
      List.find?_cons_of_neg (by simpa using Ne.symm hk)
    rw [if_neg hk]
    unfold setFlag
    rw [hskip]

/-- The rows after the loop over the revisions. -/
def withFlags (db : Database) (flags : List (ℕ × Bool)) : Database :=
  { db with
    revisions := db.revisions.map (setFlag flags) (setFlag_pk flags)
    runs := db.runs.map (correctRun (fun k => flags.contains (k, false))) (correctRun_pk _) }

theorem withFlags_cons {k : ℕ} {changed : Bool} {flags : List (ℕ × Bool)}
    (h : ∀ flag ∈ flags, flag.1 ≠ k) :
    withFlags (if changed then saveContentChanged db k changed
      else correctRuns (saveContentChanged db k changed) k) flags =
      withFlags db ((k, changed) :: flags) := by
  have hrevisions : ∀ r, setFlag flags (if r.pk = k then
      { r with contentChanged := changed } else r) = setFlag ((k, changed) :: flags) r :=
    setFlag_cons h
  have hrows : (db.revisions.update k (fun r => { r with contentChanged := changed })
      (fun _ => rfl)).map (setFlag flags) (setFlag_pk flags) =
      db.revisions.map (setFlag ((k, changed) :: flags)) (setFlag_pk _) := by
    apply Table.ext
    · show (db.revisions.rows.map _).map _ = _
      rw [List.map_map]
      exact List.map_congr_left (fun r _ => hrevisions r)
    · rfl
  cases changed with
  | true =>
    have hcontains : (fun j => ((k, true) :: flags).contains (j, false)) =
        fun j => flags.contains (j, false) := by
      funext j
      simp
    show withFlags (saveContentChanged db k true) flags = _
    unfold withFlags saveContentChanged
    simp only [hcontains, hrows]
  | false =>
    have hruns : (correctRuns (saveContentChanged db k false) k).runs.map
        (correctRun (fun j => flags.contains (j, false))) (correctRun_pk _) =
        db.runs.map (correctRun (fun j => ((k, false) :: flags).contains (j, false)))
          (correctRun_pk _) := by
      apply Table.ext
      · show (db.runs.rows.map _).map _ = db.runs.rows.map _
        rw [List.map_map]
        refine List.map_congr_left (fun run _ => ?_)
        have hfirst : (if run.revision == some k && run.status == .successChanged then
            { run with status := .successUnchanged, changed := false } else run) =
            correctRun (fun j => j == k) run := by
          unfold correctRun
          cases run.revision with
          | none => rfl
          | some j => rfl
        have hcontains : (fun j => ((k, false) :: flags).contains (j, false)) =
            fun j => j == k || flags.contains (j, false) := by
          funext j
          simp [beq_iff_eq, Bool.beq_eq_decide_eq]
        rw [Function.comp_apply, hfirst, correctRun_correctRun, hcontains]
      · rfl
    show withFlags (correctRuns (saveContentChanged db k false) k) flags = _
    unfold withFlags
    rw [hruns]
    unfold correctRuns saveContentChanged
    simp only [hrows]

theorem withFlags_nil : withFlags db [] = db := by
  have hrevisions : db.revisions.map (setFlag []) (setFlag_pk []) = db.revisions :=
    Table.ext (List.map_id _) rfl
  have hruns : db.runs.map (correctRun (fun k => ([] : List (ℕ × Bool)).contains (k, false)))
      (correctRun_pk _) = db.runs := by
    refine Table.ext ((List.map_congr_left (fun run _ => ?_)).trans (List.map_id _)) rfl
    unfold correctRun
    cases run.revision with
    | none => rfl
    | some k => rfl
  unfold withFlags
  rw [hrevisions, hruns]

/-- One turn saves the flag and corrects the runs of an unchanged revision. -/
theorem recomputeFlag_eq {lastChangedAt : Option Instant} {revision : ConfigRevision}
    (h : revision ∈ db.revisions) {changed : Bool}
    (hchanged : changed = (previousHash != some revision.normalizedHash)) :
    recomputeFlag ⟨previousHash, lastChangedAt, db⟩ revision =
      ⟨some revision.normalizedHash, if changed then some revision.created else lastChangedAt,
        if changed then saveContentChanged db revision.pk changed
        else correctRuns (saveContentChanged db revision.pk changed) revision.pk⟩ := by
  have hsave : (if revision.contentChanged != changed then
      saveContentChanged db revision.pk changed else db) =
      saveContentChanged db revision.pk changed := by
    by_cases hsame : revision.contentChanged = changed
    · rw [saveContentChanged_same h hsame, ite_self]
    · rw [if_pos (by simpa using hsame)]
  unfold recomputeFlag
  dsimp only
  rw [← hchanged, hsave]
  split <;> rfl

theorem mem_after_turn {revision other : ConfigRevision} (h : other ∈ db.revisions)
    (hother : other.pk ≠ revision.pk) (changed : Bool) :
    other ∈ (if changed then saveContentChanged db revision.pk changed
      else correctRuns (saveContentChanged db revision.pk changed) revision.pk).revisions := by
  have hsaved : other ∈ (saveContentChanged db revision.pk changed).revisions :=
    (Table.mem_update db.revisions revision.pk (fun r => { r with contentChanged := changed })
      (fun _ => rfl) other).mpr (Or.inl ⟨h, hother⟩)
  cases changed with
  | true => exact hsaved
  | false => exact hsaved

theorem foldl_recomputeFlag {lastChangedAt : Option Instant} (hmem : ∀ r ∈ l, r ∈ db.revisions)
    (hkeys : l.Pairwise (fun a b => a.pk ≠ b.pk)) :
    (l.foldl recomputeFlag ⟨previousHash, lastChangedAt, db⟩).db =
        withFlags db ((changeFlags previousHash l).map (fun flag => (flag.1.pk, flag.2))) ∧
      (l.foldl recomputeFlag ⟨previousHash, lastChangedAt, db⟩).lastChangedAt =
        (lastChange (changeFlags previousHash l)).or lastChangedAt := by
  induction l generalizing db previousHash lastChangedAt with
  | nil => exact ⟨withFlags_nil.symm, rfl⟩
  | cons r rest ih =>
    obtain ⟨hfresh, hkeys⟩ := List.pairwise_cons.mp hkeys
    have hturn := @recomputeFlag_eq db previousHash lastChangedAt r (hmem r List.mem_cons_self)
      _ rfl
    rw [List.foldl_cons, hturn]
    obtain ⟨hdb, hlast⟩ := @ih _ (some r.normalizedHash)
      (if previousHash != some r.normalizedHash then some r.created else lastChangedAt)
      (fun other hother => mem_after_turn (hmem other (List.mem_cons_of_mem r hother))
        (Ne.symm (hfresh other hother)) (previousHash != some r.normalizedHash)) hkeys
    rw [hdb, hlast]
    constructor
    · apply withFlags_cons
      intro flag hflag
      obtain ⟨source, hsource, rfl⟩ := List.mem_map.mp hflag
      exact Ne.symm (hfresh source.1 (mem_of_mem_changeFlags hsource))
    · rw [changeFlags_cons, lastChange_cons, Option.or_assoc]
      generalize (previousHash != some r.normalizedHash) = changed
      cases changed with
      | true => rfl
      | false => rfl

end Loop

section Targets

variable {db : Database} {targetId : ℕ}

theorem mem_ceragonRevisions {r : ConfigRevision} : r ∈ ceragonRevisions db targetId ↔
    r ∈ db.revisions ∧ r.target = targetId ∧ r.driverId = "ceragon_ip50" := by
  unfold ceragonRevisions oldestFirst
  simp [Table.mem_iff]

theorem keys_ceragonRevisions (db : Database) (targetId : ℕ) :
    (ceragonRevisions db targetId).Pairwise (fun a b => a.pk ≠ b.pk) := by
  have hkeys : db.revisions.rows.Pairwise (fun a b => a.pk ≠ b.pk) :=
    db.revisions.sorted.imp (fun h => Nat.ne_of_lt h)
  exact ((newestFirst_perm _).pairwise_iff (fun h => Ne.symm h)).mpr (hkeys.filter _)

/-- What computing the flags of a target leaves. -/
theorem recomputeChangeFlags_eq (db : Database) (targetId : ℕ) :
    recomputeChangeFlags db targetId =
      saveLastChangeAt (withFlags db (keyedFlags db targetId)) targetId
        (lastChange (targetFlags db targetId)) := by
  obtain ⟨hdb, hlast⟩ := @foldl_recomputeFlag db none (ceragonRevisions db targetId) none
    (fun r hr => (mem_ceragonRevisions.mp hr).1) (keys_ceragonRevisions db targetId)
  unfold recomputeChangeFlags
  dsimp only
  rw [hdb, hlast, Option.or_none]
  rfl

end Targets

section SeveralTargets

variable {db : Database} {targetId : ℕ} {p q : ℕ → Bool}

/-- The revision keeps all that the order and the flags are made of. -/
def SameStamp (a b : ConfigRevision) : Prop :=
  a.pk = b.pk ∧ a.target = b.target ∧ a.created = b.created ∧ a.driverId = b.driverId

theorem sameStamp_setFlag (flags : List (ℕ × Bool)) (r : ConfigRevision) :
    SameStamp (setFlag flags r) r ∧ (setFlag flags r).normalizedHash = r.normalizedHash := by
  unfold setFlag
  split <;> exact ⟨⟨rfl, rfl, rfl, rfl⟩, rfl⟩

theorem older_iff_of_sameStamp {g : ConfigRevision → ConfigRevision}
    (hg : ∀ r, SameStamp (g r) r) (a b : ConfigRevision) : older (g a) (g b) ↔ older a b := by
  unfold older ConfigRevision.newer newerBy
  rw [(hg a).1, (hg a).2.2.1, (hg b).1, (hg b).2.2.1]

theorem ceragonRevisions_map {db' : Database} {g : ConfigRevision → ConfigRevision}
    (hg : ∀ r, SameStamp (g r) r) (h : db'.revisions.rows = db.revisions.rows.map g) :
    ceragonRevisions db' targetId = (ceragonRevisions db targetId).map g := by
  have hsame : ((fun r : ConfigRevision => r.target == targetId &&
      r.driverId == "ceragon_ip50") ∘ g) =
      fun r => r.target == targetId && r.driverId == "ceragon_ip50" := by
    funext r
    rw [Function.comp_apply, (hg r).2.1, (hg r).2.2.2]
  unfold ceragonRevisions oldestFirst newestFirst
  rw [h, List.filter_map, hsame]
  refine (List.map_insertionSort _ _ _ _ (fun a _ b _ => ?_)).symm
  exact not_congr (older_iff_of_sameStamp hg b a).symm

theorem lastChange_map {flags : List (ConfigRevision × Bool)}
    {g : ConfigRevision → ConfigRevision} (hg : ∀ r, (g r).created = r.created) :
    lastChange (flags.map (fun flag => (g flag.1, flag.2))) = lastChange flags := by
  unfold lastChange
  rw [List.filter_map, List.getLast?_map, Option.map_map]
  have hcreated : ((fun flag : ConfigRevision × Bool => flag.1.created) ∘
      fun flag : ConfigRevision × Bool => (g flag.1, flag.2)) = fun flag => flag.1.created := by
    funext flag
    exact hg flag.1
  rw [hcreated]
  rfl

theorem sameStamp_flagRevision (db : Database) (p : ℕ → Bool) (r : ConfigRevision) :
    SameStamp (flagRevision db p r) r ∧
      (flagRevision db p r).normalizedHash = r.normalizedHash := by
  unfold flagRevision
  split
  · exact sameStamp_setFlag _ r
  · exact ⟨⟨rfl, rfl, rfl, rfl⟩, rfl⟩

theorem targetFlags_flagged : targetFlags (flagged db p) targetId =
    (targetFlags db targetId).map (fun flag => (flagRevision db p flag.1, flag.2)) := by
  have hrows : ceragonRevisions (flagged db p) targetId =
      (ceragonRevisions db targetId).map (flagRevision db p) :=
    ceragonRevisions_map (fun r => (sameStamp_flagRevision db p r).1) rfl
  unfold targetFlags
  rw [hrows, changeFlags_map (fun r => (sameStamp_flagRevision db p r).2)]

theorem keyedFlags_flagged : keyedFlags (flagged db p) targetId = keyedFlags db targetId := by
  unfold keyedFlags
  rw [targetFlags_flagged, List.map_map]
  refine List.map_congr_left (fun flag _ => ?_)
  exact Prod.ext (sameStamp_flagRevision db p flag.1).1.1 rfl

theorem lastChange_flagged :
    lastChange (targetFlags (flagged db p) targetId) = lastChange (targetFlags db targetId) := by
  rw [targetFlags_flagged, lastChange_map (fun r => (sameStamp_flagRevision db p r).1.2.2.1)]

/-- A flag is for a Ceragon revision of the target. -/
theorem exists_of_mem_keyedFlags {flag : ℕ × Bool} (h : flag ∈ keyedFlags db targetId) :
    ∃ r ∈ db.revisions, r.pk = flag.1 ∧ r.target = targetId ∧
      (r, flag.2) ∈ targetFlags db targetId := by
  obtain ⟨source, hsource, rfl⟩ := List.mem_map.mp h
  obtain ⟨hmem, htarget, _⟩ := mem_ceragonRevisions.mp (mem_of_mem_changeFlags hsource)
  exact ⟨source.1, hmem, rfl, htarget, hsource⟩

theorem setFlag_of_other {r : ConfigRevision} (hmem : r ∈ db.revisions)
    (hother : r.target ≠ targetId) {x : ConfigRevision} (hx : x.pk = r.pk) :
    setFlag (keyedFlags db targetId) x = x := by
  have hnone : (keyedFlags db targetId).find? (fun flag => flag.1 == x.pk) = none := by
    refine List.find?_eq_none.mpr (fun flag hflag hkey => ?_)
    obtain ⟨source, hsource, hpk, htarget, _⟩ := exists_of_mem_keyedFlags hflag
    have hsame := db.revisions.eq_of_key_eq hsource hmem
      (hpk.trans ((beq_iff_eq.mp hkey).trans hx))
    exact hother (hsame ▸ htarget)
  unfold setFlag
  rw [hnone]

theorem setFlag_setFlag (flags : List (ℕ × Bool)) (r : ConfigRevision) :
    setFlag flags (setFlag flags r) = setFlag flags r := by
  unfold setFlag
  cases hfound : flags.find? (fun flag => flag.1 == r.pk) with
  | none => simp only [hfound]
  | some flag => simp only [hfound]

theorem setLastChange_setLastChange (lastChangedAt : Option Instant) (target : BackupTarget) :
    setLastChange lastChangedAt (setLastChange lastChangedAt target) =
      setLastChange lastChangedAt target := by
  cases lastChangedAt with
  | none => rfl
  | some changedAt => rfl

theorem saveLastChangeAt_eq (db : Database) (targetId : ℕ) (lastChangedAt : Option Instant) :
    saveLastChangeAt db targetId lastChangedAt =
      { db with
        targets := db.targets.update targetId (setLastChange lastChangedAt)
          (setLastChange_pk lastChangedAt) } := by
  cases lastChangedAt with
  | none =>
    have hsame : db.targets.update targetId (setLastChange none) (setLastChange_pk none) =
        db.targets := by
      refine Table.ext ((List.map_congr_left (fun t _ => ?_)).trans (List.map_id _)) rfl
      exact ite_self t
    rw [hsame]
    rfl
  | some changedAt => rfl

theorem unchangedKey_or (k : ℕ) :
    (unchangedKey db p k || (keyedFlags db targetId).contains (k, false)) =
      unchangedKey db (fun t => p t || t == targetId) k := by
  have hcontains : (keyedFlags db targetId).contains (k, false) = true →
      ∃ r ∈ db.revisions, r.pk = k ∧ r.target = targetId := by
    intro h
    obtain ⟨r, hmem, hpk, htarget, _⟩ := exists_of_mem_keyedFlags (List.contains_iff_mem.mp h)
    exact ⟨r, hmem, hpk, htarget⟩
  unfold unchangedKey
  cases hget : db.revisions.get? k with
  | none =>
    have hfalse : (keyedFlags db targetId).contains (k, false) = false := by
      rw [← Bool.not_eq_true]
      intro h
      obtain ⟨r, hmem, hpk, _⟩ := hcontains h
      exact (Table.get?_eq_none_iff _ _).mp hget r hmem hpk
    rw [hfalse]
    rfl
  | some r =>
    obtain ⟨hmem, hpk⟩ := (Table.get?_eq_some_iff _ _ _).mp hget
    by_cases htarget : r.target = targetId
    · rw [Option.any_some, Option.any_some, htarget]
      simp only [beq_self_eq_true, Bool.or_true, Bool.true_and]
      cases (keyedFlags db targetId).contains (k, false) <;> simp
    · have hfalse : (keyedFlags db targetId).contains (k, false) = false := by
        rw [← Bool.not_eq_true]
        intro h
        obtain ⟨other, hother, hkey, howner⟩ := hcontains h
        rw [db.revisions.eq_of_key_eq hother hmem (hkey.trans hpk.symm)] at howner
        exact htarget howner
      rw [hfalse, Bool.or_false, Option.any_some, Option.any_some]
      simp only [beq_eq_false_iff_ne.mpr htarget, Bool.or_false]

/-- Computing the flags of one more target. -/
theorem recompute_flagged : recomputeChangeFlags (flagged db p) targetId =
    flagged db (fun t => p t || t == targetId) := by
  have hrevisions : (flagged db p).revisions.map (setFlag (keyedFlags db targetId))
      (setFlag_pk _) = (flagged db (fun t => p t || t == targetId)).revisions := by
    refine Table.ext ?_ rfl
    show (db.revisions.rows.map (flagRevision db p)).map _ = db.revisions.rows.map _
    rw [List.map_map]
    refine List.map_congr_left (fun r hr => ?_)
    rw [Function.comp_apply]
    by_cases htarget : r.target = targetId
    · unfold flagRevision
      rw [htarget]
      simp only [beq_self_eq_true, Bool.or_true, if_true]
      split
      · exact setFlag_setFlag _ r
      · rfl
    · rw [setFlag_of_other hr htarget (sameStamp_flagRevision db p r).1.1]
      unfold flagRevision
      simp [htarget]
  have hruns : (flagged db p).runs.map
      (correctRun (fun k => (keyedFlags db targetId).contains (k, false))) (correctRun_pk _) =
      (flagged db (fun t => p t || t == targetId)).runs := by
    refine Table.ext ?_ rfl
    show (db.runs.rows.map (correctRun (unchangedKey db p))).map _ =
      db.runs.rows.map (correctRun (unchangedKey db _))
    rw [List.map_map]
    refine List.map_congr_left (fun run _ => ?_)
    rw [Function.comp_apply, correctRun_correctRun]
    congr 1
    funext k
    exact unchangedKey_or k
  have htargets : (flagged db p).targets.update targetId
      (setLastChange (lastChange (targetFlags db targetId))) (setLastChange_pk _) =
      (flagged db (fun t => p t || t == targetId)).targets := by
    refine Table.ext ?_ rfl
    show (db.targets.rows.map (flagTarget db p)).map _ = db.targets.rows.map _
    rw [List.map_map]
    refine List.map_congr_left (fun t _ => ?_)
    rw [Function.comp_apply, flagTarget_pk]
    by_cases htarget : t.pk = targetId
    · rw [if_pos htarget]
      unfold flagTarget
      rw [htarget]
      simp only [beq_self_eq_true, Bool.or_true, if_true]
      split
      · exact setLastChange_setLastChange _ t
      · rfl
    · rw [if_neg htarget]
      unfold flagTarget
      simp only [beq_eq_false_iff_ne.mpr htarget, Bool.or_false]
  have htables : ∀ revisions runs targets,
      revisions = (flagged db (fun t => p t || t == targetId)).revisions →
      runs = (flagged db (fun t => p t || t == targetId)).runs →
      targets = (flagged db (fun t => p t || t == targetId)).targets →
      { flagged db p with revisions := revisions, runs := runs, targets := targets } =
        flagged db (fun t => p t || t == targetId) := by
    rintro _ _ _ rfl rfl rfl
    rfl
  rw [recomputeChangeFlags_eq, keyedFlags_flagged, lastChange_flagged, saveLastChangeAt_eq]
  exact htables _ _ _ hrevisions hruns htargets

theorem flagged_none (db : Database) : flagged db (fun _ => false) = db := by
  have hunchanged : unchangedKey db (fun _ => false) = fun _ => false := by
    funext k
    simp [unchangedKey]
  have hruns : (flagged db (fun _ => false)).runs = db.runs := by
    refine Table.ext ((List.map_congr_left (fun run _ => ?_)).trans (List.map_id _)) rfl
    unfold correctRun
    rw [hunchanged]
    cases run.revision with
    | none => rfl
    | some k => rfl
  have htables : ∀ revisions runs targets, revisions = db.revisions → runs = db.runs →
      targets = db.targets →
      { db with revisions := revisions, runs := runs, targets := targets } = db := by
    rintro _ _ _ rfl rfl rfl
    rfl
  exact htables _ _ _ (Table.ext (List.map_id _) rfl) hruns (Table.ext (List.map_id _) rfl)

end SeveralTargets

section Consistency

variable {db : Database} {targetId : ℕ} {p q : ℕ → Bool}

theorem nodup_targetFlags (db : Database) (targetId : ℕ) :
    ((targetFlags db targetId).map (fun flag => flag.1.pk)).Nodup := by
  have hkeys : (targetFlags db targetId).map (fun flag => flag.1.pk) =
      (ceragonRevisions db targetId).map (fun r => r.pk) := by
    unfold targetFlags
    conv_rhs => rw [← keys_changeFlags none (ceragonRevisions db targetId), List.map_map]
    rfl
  rw [hkeys]
  exact List.pairwise_map.mpr (keys_ceragonRevisions db targetId)

theorem setFlag_of_mem {flag : ConfigRevision × Bool} (h : flag ∈ targetFlags db targetId) :
    setFlag (keyedFlags db targetId) flag.1 = { flag.1 with contentChanged := flag.2 } := by
  have hfound : (keyedFlags db targetId).find? (fun keyed => keyed.1 == flag.1.pk) =
      some (flag.1.pk, flag.2) := by
    cases hfind : (keyedFlags db targetId).find? (fun keyed => keyed.1 == flag.1.pk) with
    | none =>
      have hkeyed : (flag.1.pk, flag.2) ∈ keyedFlags db targetId :=
        List.mem_map_of_mem (f := fun flag : ConfigRevision × Bool => (flag.1.pk, flag.2)) h
      exact absurd (beq_self_eq_true flag.1.pk) (List.find?_eq_none.mp hfind _ hkeyed)
    | some keyed =>
      have hkey := List.find?_some hfind
      obtain ⟨other, hother, rfl⟩ := List.mem_map.mp (List.mem_of_find?_eq_some hfind)
      rw [List.inj_on_of_nodup_map (nodup_targetFlags db targetId) hother h (beq_iff_eq.mp hkey)]
  unfold setFlag
  rw [hfound]

theorem exists_flag {r : ConfigRevision} (h : r ∈ ceragonRevisions db targetId) :
    ∃ changed, (r, changed) ∈ targetFlags db targetId := by
  rw [← keys_changeFlags none (ceragonRevisions db targetId)] at h
  obtain ⟨flag, hflag, rfl⟩ := List.mem_map.mp h
  exact ⟨flag.2, hflag⟩

/-- The flags of a consistent target are those that its revisions have. -/
theorem setFlag_of_consistent (h : FlagsConsistent db targetId) {r : ConfigRevision}
    (hr : r ∈ db.revisions) : setFlag (keyedFlags db targetId) r = r := by
  by_cases hceragon : r ∈ ceragonRevisions db targetId
  · obtain ⟨changed, hflag⟩ := exists_flag hceragon
    have hsame : r.contentChanged = changed := h.flags _ hflag
    rw [setFlag_of_mem hflag, ← hsame]
  · have hnone : (keyedFlags db targetId).find? (fun flag => flag.1 == r.pk) = none := by
      refine List.find?_eq_none.mpr (fun flag hflag hkey => hceragon ?_)
      obtain ⟨source, hsource, rfl⟩ := List.mem_map.mp hflag
      have hmem := mem_of_mem_changeFlags hsource
      rw [← db.revisions.eq_of_key_eq (mem_ceragonRevisions.mp hmem).1 hr (beq_iff_eq.mp hkey)]
      exact hmem
    unfold setFlag
    rw [hnone]

theorem unchangedKey_iff {k : ℕ} : unchangedKey db p k = true ↔
    ∃ targetId, p targetId = true ∧ ∃ flag ∈ targetFlags db targetId,
      flag.1.pk = k ∧ flag.2 = false := by
  have hkeyed : ∀ targetId, (keyedFlags db targetId).contains (k, false) = true ↔
      ∃ flag ∈ targetFlags db targetId, flag.1.pk = k ∧ flag.2 = false := by
    intro targetId
    unfold keyedFlags
    simp
  unfold unchangedKey
  rw [Option.any_eq_true]
  constructor
  · rintro ⟨r, hget, hflag⟩
    obtain ⟨hp, hcontains⟩ := Bool.and_eq_true_iff.mp hflag
    exact ⟨r.target, hp, (hkeyed r.target).mp hcontains⟩
  · rintro ⟨targetId, hp, flag, hflag, rfl, hunchanged⟩
    obtain ⟨hmem, rfl, _⟩ := mem_ceragonRevisions.mp (mem_of_mem_changeFlags hflag)
    refine ⟨flag.1, db.revisions.get?_of_mem hmem, ?_⟩
    rw [hp, Bool.true_and]
    exact (hkeyed _).mpr ⟨flag, hflag, rfl, hunchanged⟩

/-- A revision is flagged for its own target only. -/
theorem unchangedKey_of_flag {flag : ConfigRevision × Bool} (h : flag ∈ targetFlags db targetId)
    (hp : p targetId = false) : unchangedKey db p flag.1.pk = false := by
  rw [← Bool.not_eq_true, unchangedKey_iff]
  rintro ⟨other, hother, flag', hflag', hkey, _⟩
  obtain ⟨hmem, htarget, _⟩ := mem_ceragonRevisions.mp (mem_of_mem_changeFlags h)
  obtain ⟨hmem', htarget', _⟩ := mem_ceragonRevisions.mp (mem_of_mem_changeFlags hflag')
  rw [db.revisions.eq_of_key_eq hmem' hmem hkey, htarget] at htarget'
  rw [← htarget', hp] at hother
  cases hother

theorem correctRun_of_ne {unchanged : ℕ → Bool} {run : BackupRun}
    (h : ∀ k, run.revision = some k → unchanged k = true → run.status ≠ .successChanged) :
    correctRun unchanged run = run := by
  unfold correctRun
  rw [if_neg]
  cases hrevision : run.revision with
  | none => simp
  | some k =>
    intro hcorrect
    obtain ⟨hunchanged, hstatus⟩ := Bool.and_eq_true_iff.mp hcorrect
    exact h k hrevision hunchanged (beq_iff_eq.mp hstatus)

theorem correctRun_congr {unchanged more : ℕ → Bool} {run : BackupRun}
    (h : ∀ k, run.revision = some k → run.status = .successChanged → unchanged k = more k) :
    correctRun unchanged run = correctRun more run := by
  unfold correctRun
  cases hrevision : run.revision with
  | none => rfl
  | some k =>
    by_cases hstatus : run.status = .successChanged
    · rw [Option.any_some, Option.any_some, h k hrevision hstatus]
    · simp [hstatus]

theorem consistent_of_flagged_eq (h : flagged db p = flagged db q) (hq : q targetId = true)
    (hp : p targetId = false) : FlagsConsistent db targetId := by
  have hrevisions : ∀ r ∈ db.revisions, flagRevision db p r = flagRevision db q r :=
    List.map_inj_left.mp (congrArg (fun d => d.revisions.rows) h)
  have hruns : ∀ run ∈ db.runs, correctRun (unchangedKey db p) run =
      correctRun (unchangedKey db q) run :=
    List.map_inj_left.mp (congrArg (fun d => d.runs.rows) h)
  have htargets : ∀ target ∈ db.targets, flagTarget db p target = flagTarget db q target :=
    List.map_inj_left.mp (congrArg (fun d => d.targets.rows) h)
  constructor
  · intro flag hflag
    obtain ⟨hmem, htarget, _⟩ := mem_ceragonRevisions.mp (mem_of_mem_changeFlags hflag)
    have hsame := hrevisions flag.1 hmem
    unfold flagRevision at hsame
    rw [htarget, hp, hq, if_neg Bool.false_ne_true, if_pos rfl, setFlag_of_mem hflag] at hsame
    exact congrArg ConfigRevision.contentChanged hsame
  · intro flag hflag hunchanged run hrun hrevision hstatus
    have hsame := hruns run hrun
    have hmore : unchangedKey db q flag.1.pk = true :=
      unchangedKey_iff.mpr ⟨targetId, hq, flag, hflag, rfl, hunchanged⟩
    unfold correctRun at hsame
    rw [hrevision, hstatus, Option.any_some, Option.any_some, unchangedKey_of_flag hflag hp,
      hmore] at hsame
    have hcorrected := congrArg BackupRun.status hsame
    rw [if_neg (by decide), if_pos (by decide), hstatus] at hcorrected
    cases hcorrected
  · intro changedAt hchanged target htarget hpk
    have hsame := htargets target htarget
    unfold flagTarget at hsame
    rw [hpk, hp, hq, if_neg Bool.false_ne_true, if_pos rfl, hchanged] at hsame
    exact congrArg BackupTarget.lastChangeAt hsame

/-- The flags of further targets change nothing exactly when they are consistent already. -/
theorem flagged_eq_iff (hpq : ∀ targetId, p targetId = true → q targetId = true) :
    flagged db p = flagged db q ↔
      ∀ targetId, q targetId = true → p targetId = false → FlagsConsistent db targetId := by
  refine ⟨fun h targetId hq hp => consistent_of_flagged_eq h hq hp, fun h => ?_⟩
  have hrevisions : (flagged db p).revisions = (flagged db q).revisions := by
    refine Table.ext (List.map_congr_left (fun r hr => ?_)) rfl
    unfold flagRevision
    cases hp : p r.target with
    | true => rw [hpq _ hp]
    | false =>
      cases hq : q r.target with
      | false => rfl
      | true =>
        rw [if_neg Bool.false_ne_true, if_pos rfl]
        exact (setFlag_of_consistent (h _ hq hp) hr).symm
  have hruns : (flagged db p).runs = (flagged db q).runs := by
    refine Table.ext (List.map_congr_left (fun run hrun => correctRun_congr ?_)) rfl
    intro k hrevision hstatus
    rw [Bool.eq_iff_iff, unchangedKey_iff, unchangedKey_iff]
    constructor
    · rintro ⟨targetId, hp, hflag⟩
      exact ⟨targetId, hpq targetId hp, hflag⟩
    · rintro ⟨targetId, hq, flag, hflag, rfl, hunchanged⟩
      refine ⟨targetId, ?_, flag, hflag, rfl, hunchanged⟩
      rw [← Bool.not_eq_false]
      intro hp
      exact (h targetId hq hp).runs flag hflag hunchanged run hrun hrevision hstatus
  have htargets : (flagged db p).targets = (flagged db q).targets := by
    refine Table.ext (List.map_congr_left (fun target htarget => ?_)) rfl
    unfold flagTarget
    cases hp : p target.pk with
    | true => rw [hpq _ hp]
    | false =>
      cases hq : q target.pk with
      | false => rfl
      | true =>
        rw [if_neg Bool.false_ne_true, if_pos rfl]
        cases hchanged : lastChange (targetFlags db target.pk) with
        | none => rfl
        | some changedAt =>
          have hsame := (h _ hq hp).lastChange changedAt hchanged target htarget rfl
          show target = { target with lastChangeAt := some changedAt }
          rw [← hsame]
  have htables : ∀ revisions runs targets, revisions = (flagged db q).revisions →
      runs = (flagged db q).runs → targets = (flagged db q).targets →
      { db with revisions := revisions, runs := runs, targets := targets } = flagged db q := by
    rintro _ _ _ rfl rfl rfl
    rfl
  exact htables _ _ _ hrevisions hruns htargets

/-- The targets whose flags were computed are consistent. -/
theorem consistent_flagged (hp : p targetId = true) :
    FlagsConsistent (flagged db p) targetId := by
  have hsame : (fun t => p t || t == targetId) = p := by
    funext t
    by_cases ht : t = targetId
    · rw [ht, hp, Bool.true_or]
    · rw [beq_eq_false_iff_ne.mpr ht, Bool.or_false]
  have hagain : flagged (flagged db p) (fun _ => false) =
      flagged (flagged db p) (fun t => false || t == targetId) := by
    rw [← recompute_flagged, flagged_none, recompute_flagged, hsame]
  refine (flagged_eq_iff (fun _ h => ?_)).mp hagain targetId (by simp) rfl
  cases h

end Consistency

end ConfigBackup.BackfillFlags
