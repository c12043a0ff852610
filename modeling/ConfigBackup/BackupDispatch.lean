import ConfigBackup.FinishedRuns
import ConfigBackup.Scheduling

/-!
The dispatcher of scheduled backups. A pass gives every scheduled target a
next run, and for each due one it computes the run after it and queues a run
under a key made of the slot, in one transaction; the key is unique among the
runs of a target. Between the passes runs succeed and fail, which computes the
next run again. All steps read one clock that never goes back.
-/

namespace ConfigBackup.BackupDispatch

open Calendar FinishedRuns GuardedRuns Models Repository RunLifecycle Scheduling Tables

inductive RunSource
  | manual | scheduled | retry
deriving DecidableEq, Repr

/-- `f"{source}:{scheduled_for.isoformat()}"`; the text determines both parts. -/
structure DedupeKey where
  source : RunSource
  scheduledFor : Instant
deriving DecidableEq, Repr

/-- The dispatch columns of a queued run. -/
structure DispatchedRun where
  run : ℕ
  target : ℕ
  dedupeKey : DedupeKey
deriving DecidableEq, Repr

/-- What a pass computed for a due target, and whether the unique constraint
already held its key. -/
structure Handled where
  passedAt : Instant
  target : ℕ
  dedupeKey : DedupeKey
  nextRunAt : Instant
  keyUsed : Bool
deriving DecidableEq, Repr

structure State where
  db : Database
  dispatched : List DispatchedRun
  clock : Instant
  handled : List Handled

structure DispatchSummary where
  initialized : ℕ
  due : ℕ
  queued : ℕ
  skippedActive : ℕ
  conflicts : ℕ
  workerUnavailable : Bool
  workerStateUnknown : Bool
deriving DecidableEq, Repr

/-- What the dispatcher learns about the workers of the backup queue. -/
inductive Workers
  | live | absent | unknown
deriving DecidableEq, Repr

/-- The time stamp and the job of a new run. -/
structure Enqueued where
  queuedAt : Instant
  jobId : ℕ
deriving DecidableEq, Repr

def scheduled (env : Environment) (target : BackupTarget) : Bool :=
  target.enabled && (policyOf env target).any (fun policy => policy.enabled)

def due (now : Instant) (target : BackupTarget) : Bool :=
  target.nextRunAt.any (fun next => decide (next ≤ now))

/-- One row's part of `initialize_target_schedules`. -/
def initializeTarget (env : Environment) (now : Instant) (target : BackupTarget) : BackupTarget :=
  if !scheduled env target then { target with nextRunAt := none }
  else if target.nextRunAt.isNone then applyTargetSchedule env now target
  else target

@[simp] theorem initializeTarget_pk (env : Environment) (now : Instant) (target : BackupTarget) :
    (initializeTarget env now target).pk = target.pk := by
  unfold initializeTarget
  split
  · rfl
  · split <;> rfl

def initializeTargetSchedules (env : Environment) (now : Instant) (db : Database) : Database :=
  { db with targets := db.targets.map (initializeTarget env now) (initializeTarget_pk env now) }

/-- The number of rows that `initialize_target_schedules` schedules. -/
def initializedCount (env : Environment) (db : Database) : ℕ :=
  (db.targets.rows.filter (fun t => scheduled env t && t.nextRunAt.isNone)).length

def candidateIds (env : Environment) (now : Instant) (limit : ℕ) (db : Database) : List ℕ :=
  (((db.targets.rows.filter (fun t => scheduled env t && due now t)).insertionSort
    (fun a b => a.nextRunAt.getD 0 ≤ b.nextRunAt.getD 0)).take limit).map (fun t => t.pk)

def keyUsed (s : State) (targetId : ℕ) (key : DedupeKey) : Bool :=
  s.dispatched.any (fun r => r.target == targetId && r.dedupeKey == key)

def withNextRun (nextRunAt : Instant) (target : BackupTarget) : BackupTarget :=
  { target with nextRunAt := some nextRunAt }

@[simp] theorem withNextRun_pk (nextRunAt : Instant) (target : BackupTarget) :
    (withNextRun nextRunAt target).pk = target.pk := rfl

def runSource (policy : SchedulePolicy) (target : BackupTarget) : RunSource :=
  let retry := target.status == .failed && isRetryScheduled policy target.consecutiveFailures
  if retry then .retry else .scheduled

/-- The transaction of one candidate. An `IntegrityError` of the insertion rolls
it back and counts as a conflict. -/
def dispatchTarget (env : Environment) (now : Instant) (enqueued : ℕ → Enqueued)
    (acc : State × DispatchSummary) (targetId : ℕ) : State × DispatchSummary :=
  let s := acc.1
  let summary := acc.2
  match s.db.targets.get? targetId with
  | none => acc
  | some target =>
    match policyOf env target, target.nextRunAt with
    | some policy, some scheduledFor =>
      if !target.enabled || !policy.enabled || decide (now < scheduledFor) then acc
      else if s.db.hasActiveRun targetId then
        (s, { summary with skippedActive := summary.skippedActive + 1 })
      else
        let key : DedupeKey := ⟨runSource policy target, scheduledFor⟩
        let nextRunAt := calculateNextRun env policy scheduledFor target.pk
          (targetTimezoneName env target) (some now)
        let used := keyUsed s targetId key
        let handled := s.handled ++ [⟨now, targetId, key, nextRunAt, used⟩]
        let saved := saveTarget s.db targetId (withNextRun nextRunAt) (withNextRun_pk nextRunAt)
        let row := enqueued targetId
        match enqueueBackupRun saved targetId row.queuedAt (some row.jobId) with
        | none =>
          ({ s with handled := handled }, { summary with conflicts := summary.conflicts + 1 })
        | some db =>
          if used then
            ({ s with handled := handled }, { summary with conflicts := summary.conflicts + 1 })
          else
            ({ s with
                db := db, handled := handled
                dispatched := s.dispatched ++ [⟨s.db.runs.next, targetId, key⟩] },
              { summary with queued := summary.queued + 1 })
    | _, _ => acc

def dispatchDueTargets (env : Environment) (now : Instant) (limit : ℕ) (workers : Workers)
    (enqueued : ℕ → Enqueued) (s : State) : State × DispatchSummary :=
  let db := initializeTargetSchedules env now s.db
  let ids := candidateIds env now limit db
  let summary : DispatchSummary :=
    ⟨initializedCount env s.db, ids.length, 0, 0, 0, false, false⟩
  let s := { s with db := db }
  if ids = [] then (s, summary)
  else
    match workers with
    | .absent => (s, { summary with workerUnavailable := true })
    | .unknown => (s, { summary with workerStateUnknown := true })
    | .live => ids.foldl (dispatchTarget env now enqueued) (s, summary)

inductive Label
  | dispatch (now : Instant) (limit : ℕ) (workers : Workers) (enqueued : ℕ → Enqueued)
  | commitUnchanged (runId : ℕ) (latest : Option ConfigRevision) (rawChanged : Bool)
      (finishedAt : Instant)
  | commitRevision (runId : ℕ) (previous : Option ConfigRevision) (commit : RevisionCommit)
  | markFailed (runId : ℕ) (failure : RunFailure) (finishedAt : Instant)

/-- The time a step reads from the clock. -/
def Label.time : Label → Instant
  | .dispatch now _ _ _ => now
  | .commitUnchanged _ _ _ finishedAt => finishedAt
  | .commitRevision _ _ commit => commit.finishedAt
  | .markFailed _ _ finishedAt => finishedAt

def perform (env : Environment) (s : State) : Label → Option State
  | .dispatch now limit workers enqueued =>
    some (dispatchDueTargets env now limit workers enqueued s).1
  | .commitUnchanged runId latest rawChanged finishedAt => do
    let db ← commitUnchanged env.scheduler s.db runId latest rawChanged finishedAt
    some { s with db := db }
  | .commitRevision runId previous commit => do
    let db ← commitRevision env.scheduler s.db runId previous commit
    some { s with db := db }
  | .markFailed runId failure finishedAt => do
    let db ← markFailed env.scheduler s.db runId failure finishedAt
    some { s with db := db }

def step (env : Environment) (s : State) (label : Label) : Option State :=
  if label.time < s.clock then none
  else perform env { s with clock := label.time } label

/-- The target whose row a transaction on the run locks. -/
def runTarget (db : Database) (runId : ℕ) : Option BackupTarget :=
  (db.runs.get? runId).bind fun run => db.targets.get? run.target

/-- The slots that a computation for the target may choose at `t` are ahead. -/
def AheadFor (env : Environment) (target : BackupTarget) (targetKey : ℕ) (t : Instant) : Prop :=
  ∀ policy, policyOf env target = some policy → policy.enabled = true →
    SlotsAhead env policy targetKey (targetTimezoneName env target) t

/-- Wherever the step computes a regular run, no slot ahead is a repeated one. -/
def SlotsNotRepeated (env : Environment) (s : State) : Label → Prop
  | .dispatch now _ _ _ => ∀ target ∈ s.db.targets, target.enabled = true →
      (target.nextRunAt = none → AheadFor env target (targetKeyOf target) now) ∧
        (due now target = true → AheadFor env target target.pk now)
  | .commitUnchanged runId _ _ finishedAt => ∀ target, runTarget s.db runId = some target →
      target.enabled = true → target.nextRunAt = none →
        AheadFor env target (targetKeyOf target) finishedAt
  | .commitRevision runId _ commit => ∀ target, runTarget s.db runId = some target →
      target.enabled = true → target.nextRunAt = none →
        AheadFor env target (targetKeyOf target) commit.finishedAt
  | .markFailed runId _ finishedAt => ∀ target, runTarget s.db runId = some target →
      ∀ policy, policyOf env target = some policy → policy.enabled = true →
      ¬ (target.consecutiveFailures + 1 ≤ policy.maxRetries ∧ policy.retryBackoffMinutes ≠ []) →
        SlotsAhead env policy target.pk (targetTimezoneName env target) finishedAt

/-- Nothing has been dispatched yet. -/
def Fresh (s : State) : Prop := s.dispatched = [] ∧ s.handled = []

/-- Target rows keep their next run or get one after `t`. -/
def Advances (t : Instant) (db db' : Database) : Prop :=
  ∀ target' ∈ db'.targets, ∃ target ∈ db.targets, target.pk = target'.pk ∧
    (target'.nextRunAt = target.nextRunAt ∨ ∀ next, target'.nextRunAt = some next → t < next)

/-- Every key in use is of a slot that has passed and that its target will not
be given again. -/
structure Inv (s : State) : Prop where
  past : ∀ r ∈ s.dispatched, r.dedupeKey.scheduledFor ≤ s.clock
  before : ∀ r ∈ s.dispatched, ∀ target ∈ s.db.targets, target.pk = r.target →
    ∀ next, target.nextRunAt = some next → r.dedupeKey.scheduledFor < next
  handled : ∀ h ∈ s.handled, h.passedAt < h.nextRunAt ∧ h.keyUsed = false

theorem inv_fresh {s : State} (h : Fresh s) : Inv s where
  past r hr := by simp [h.1] at hr
  before r hr := by simp [h.1] at hr
  handled record hrecord := by simp [h.2] at hrecord

theorem Inv.advance {s : State} {t : Instant} {db : Database} (h : Inv s) (ht : s.clock ≤ t)
    (hdb : Advances t s.db db) : Inv { s with db := db, clock := t } where
  past r hr := le_trans (h.past r hr) ht
  before r hr target' htarget' hpk next hnext := by
    obtain ⟨target, htarget, hkey, hsame | hlater⟩ := hdb target' htarget'
    · exact h.before r hr target htarget (hkey.trans hpk) next (hsame ▸ hnext)
    · exact lt_of_le_of_lt (le_trans (h.past r hr) ht) (hlater next hnext)
  handled := h.handled

theorem advances_saveTarget {t : Instant} {db : Database} {targetId : ℕ}
    {f : BackupTarget → BackupTarget} {hf : ∀ target, (f target).pk = target.pk}
    (h : ∀ target, db.targets.get? targetId = some target →
      (f target).nextRunAt = target.nextRunAt ∨ ∀ next, (f target).nextRunAt = some next → t < next) :
    Advances t db (saveTarget db targetId f hf) := by
  intro target' htarget'
  rcases (Table.mem_update _ _ _ hf _).mp htarget' with ⟨hmem, _⟩ | ⟨target, hmem, hpk, rfl⟩
  · exact ⟨target', hmem, rfl, Or.inl rfl⟩
  · have hget := (Table.get?_eq_some_iff _ _ _).mpr ⟨hmem, hpk⟩
    exact ⟨target, hmem, (hf target).symm, h target hget⟩

theorem advances_targets {t : Instant} {db db' db'' : Database} (h : Advances t db db')
    (htargets : db''.targets = db'.targets) : Advances t db db'' := by
  unfold Advances
  rw [htargets]
  exact h

/-- A success computes a next run only for a target that has none. -/
theorem markTargetSuccess_nextRunAt {env : Environment} {target : BackupTarget}
    {revision : Option ℕ} {finishedAt : Instant} {contentChanged : Bool}
    (h : target.enabled = true → target.nextRunAt = none →
      AheadFor env target (targetKeyOf target) finishedAt) :
    let saved := markTargetSuccess env.scheduler target revision finishedAt contentChanged
    saved.nextRunAt = target.nextRunAt ∨ ∀ next, saved.nextRunAt = some next → finishedAt < next := by
  dsimp only
  unfold markTargetSuccess
  dsimp only
  cases hnext : target.nextRunAt with
  | some next => exact Or.inl (by simp)
  | none =>
    refine Or.inr ?_
    intro next hnext'
    rw [if_pos (by rfl)] at hnext'
    exact lt_calculateTargetNextRun hnext' (fun henabled => h henabled hnext)

/-- The row a transaction updates is the target that it locked. -/
theorem row_eq_locked {db : Database} {k : ℕ} {target row : BackupTarget}
    (htarget : db.targets.get? k = some target) (hrow : db.targets.get? target.pk = some row) :
    row = target := by
  rw [((Table.get?_eq_some_iff _ _ _).mp htarget).2, htarget, Option.some.injEq] at hrow
  exact hrow.symm

theorem advances_commitUnchanged {env : Environment} {db db' : Database} {runId : ℕ}
    {latest : Option ConfigRevision} {rawChanged : Bool} {finishedAt : Instant}
    (h : commitUnchanged env.scheduler db runId latest rawChanged finishedAt = some db')
    (hslots : ∀ target, runTarget db runId = some target → target.enabled = true →
      target.nextRunAt = none → AheadFor env target (targetKeyOf target) finishedAt) :
    Advances finishedAt db db' := by
  unfold commitUnchanged at h
  obtain ⟨run, hrun, h⟩ := Option.bind_eq_some_iff.mp h
  obtain ⟨target, htarget, h⟩ := Option.bind_eq_some_iff.mp h
  rw [← Option.some.inj h]
  have hlocked : runTarget db runId = some target := by
    unfold runTarget
    rw [hrun]
    exact htarget
  apply advances_saveTarget
  intro row hrow
  obtain rfl := row_eq_locked htarget hrow
  exact markTargetSuccess_nextRunAt (hslots row hlocked)

theorem advances_commitRevision {env : Environment} {db db' : Database} {runId : ℕ}
    {previous : Option ConfigRevision} {commit : RevisionCommit}
    (h : commitRevision env.scheduler db runId previous commit = some db')
    (hslots : ∀ target, runTarget db runId = some target → target.enabled = true →
      target.nextRunAt = none → AheadFor env target (targetKeyOf target) commit.finishedAt) :
    Advances commit.finishedAt db db' := by
  obtain ⟨run, target, hrun, htarget, rfl⟩ := commitRevision_eq_some h
  have hlocked : runTarget db runId = some target := by
    unfold runTarget
    rw [hrun]
    exact htarget
  refine advances_targets (@advances_saveTarget _ db target.pk _
    (fun _ => markTargetSuccess_pk _ _ _ _ _) ?_) rfl
  intro row hrow
  obtain rfl := row_eq_locked htarget hrow
  exact markTargetSuccess_nextRunAt (hslots row hlocked)

theorem advances_markFailed {env : Environment} {db db' : Database} {runId : ℕ}
    {failure : RunFailure} {finishedAt : Instant} (hbackoff : PositiveBackoff env)
    (h : markFailed env.scheduler db runId failure finishedAt = some db')
    (hslots : SlotsNotRepeated env ⟨db, [], finishedAt, []⟩ (.markFailed runId failure finishedAt)) :
    Advances finishedAt db db' := by
  unfold markFailed at h
  obtain ⟨run, hrun, h⟩ := Option.bind_eq_some_iff.mp h
  obtain ⟨target, htarget, h⟩ := Option.bind_eq_some_iff.mp h
  rw [← Option.some.inj h]
  have hlocked : runTarget db runId = some target := by
    unfold runTarget
    rw [hrun]
    exact htarget
  apply advances_saveTarget
  intro row hrow
  obtain rfl := row_eq_locked htarget hrow
  refine Or.inr ?_
  intro next hnext
  exact lt_failureNextRun hbackoff hnext (hslots row hlocked)

theorem initializeTarget_nextRunAt {env : Environment} {now : Instant} {target : BackupTarget}
    (h : target.enabled = true → target.nextRunAt = none →
      AheadFor env target (targetKeyOf target) now) :
    initializeTarget env now target = target ∨
      ∀ next, (initializeTarget env now target).nextRunAt = some next → now < next := by
  unfold initializeTarget
  split
  · exact Or.inr (fun next hnext => by simp at hnext)
  · split
    · rename_i hnone
      refine Or.inr ?_
      intro next hnext
      exact lt_calculateTargetNextRun hnext
        (fun henabled => h henabled (Option.isNone_iff_eq_none.mp hnone))
    · exact Or.inl rfl

/-- Every due target has the slots of this pass ahead. -/
def DueAhead (env : Environment) (now : Instant) (db : Database) : Prop :=
  ∀ target ∈ db.targets, target.enabled = true → due now target = true →
    AheadFor env target target.pk now

theorem not_due_of_later {now next : Instant} {target : BackupTarget}
    (hnext : target.nextRunAt = some next) (h : now < next) : due now target = false := by
  unfold due
  rw [hnext]
  simpa using h

theorem dueAhead_initialize {env : Environment} {now : Instant} {db : Database}
    (h : ∀ target ∈ db.targets, target.enabled = true →
      (target.nextRunAt = none → AheadFor env target (targetKeyOf target) now) ∧
        (due now target = true → AheadFor env target target.pk now)) :
    Advances now db (initializeTargetSchedules env now db) ∧
      DueAhead env now (initializeTargetSchedules env now db) := by
  constructor
  · intro target' htarget'
    obtain ⟨target, htarget, rfl⟩ :=
      (Table.mem_map _ _ (initializeTarget_pk env now) _).mp htarget'
    refine ⟨target, htarget, (initializeTarget_pk env now target).symm, ?_⟩
    rcases initializeTarget_nextRunAt (fun henabled => (h target htarget henabled).1)
      with hsame | hlater
    · exact Or.inl (by rw [hsame])
    · exact Or.inr hlater
  · intro target' htarget' henabled hdue
    obtain ⟨target, htarget, rfl⟩ :=
      (Table.mem_map _ _ (initializeTarget_pk env now) _).mp htarget'
    rcases initializeTarget_nextRunAt (fun henabled => (h target htarget henabled).1)
      with hsame | hlater
    · rw [hsame] at henabled hdue ⊢
      exact (h target htarget henabled).2 hdue
    · exfalso
      cases hnext : (initializeTarget env now target).nextRunAt with
      | none => simp [due, hnext] at hdue
      | some next =>
        rw [not_due_of_later hnext (hlater next hnext)] at hdue
        exact Bool.false_ne_true hdue

/-- What the transaction of one candidate does: nothing, or it computes the
target's next run and then either rolls back or queues a run under a new key. -/
theorem dispatchTarget_spec (env : Environment) (now : Instant) (enqueued : ℕ → Enqueued)
    (s : State) (summary : DispatchSummary) (targetId : ℕ) :
    (dispatchTarget env now enqueued (s, summary) targetId).1 = s ∨
      ∃ target policy scheduledFor source, s.db.targets.get? targetId = some target ∧
        policyOf env target = some policy ∧ policy.enabled = true ∧ target.enabled = true ∧
        target.nextRunAt = some scheduledFor ∧ scheduledFor ≤ now ∧
        let nextRunAt := calculateNextRun env policy scheduledFor target.pk
          (targetTimezoneName env target) (some now)
        let key : DedupeKey := ⟨source, scheduledFor⟩
        let handled := s.handled ++ [⟨now, targetId, key, nextRunAt, keyUsed s targetId key⟩]
        (dispatchTarget env now enqueued (s, summary) targetId).1 = { s with handled := handled } ∨
          ∃ db, db.targets = (saveTarget s.db targetId
              (withNextRun nextRunAt) (withNextRun_pk nextRunAt)).targets ∧
            (dispatchTarget env now enqueued (s, summary) targetId).1 = { s with
              db := db, handled := handled
              dispatched := s.dispatched ++ [⟨s.db.runs.next, targetId, key⟩] } := by
  unfold dispatchTarget
  dsimp only
  cases htarget : s.db.targets.get? targetId with
  | none => exact Or.inl rfl
  | some target =>
    dsimp only
    cases hpolicy : policyOf env target with
    | none => exact Or.inl rfl
    | some policy =>
      cases hnext : target.nextRunAt with
      | none => exact Or.inl rfl
      | some scheduledFor =>
        dsimp only
        split
        · exact Or.inl rfl
        · rename_i hdue
          simp only [Bool.or_eq_true, Bool.not_eq_eq_eq_not, Bool.not_true, decide_eq_true_eq,
            not_or, Bool.not_eq_false, not_lt] at hdue
          split
          · exact Or.inl rfl
          · refine Or.inr ⟨target, policy, scheduledFor, runSource policy target, rfl, hpolicy,
              hdue.1.2, hdue.1.1, hnext, hdue.2, ?_⟩
            split
            · exact Or.inl rfl
            · rename_i db hdb
              unfold enqueueBackupRun at hdb
              split at hdb
              · simp at hdb
              · split
                · exact Or.inl rfl
                · refine Or.inr ⟨db, ?_, rfl⟩
                  rw [← Option.some.inj hdb]

/-- The run computed for a due slot is later than the pass, and its key is new:
every key in use is of an earlier slot. -/
theorem inv_dispatchTarget {env : Environment} {s : State} (enqueued : ℕ → Enqueued)
    (summary : DispatchSummary) (targetId : ℕ) (h : Inv s) (hdue : DueAhead env s.clock s.db) :
    let s' := (dispatchTarget env s.clock enqueued (s, summary) targetId).1
    Inv s' ∧ DueAhead env s.clock s'.db ∧ s'.clock = s.clock := by
  dsimp only
  rcases dispatchTarget_spec env s.clock enqueued s summary targetId with hsame |
    ⟨target, policy, scheduledFor, source, htarget, hpolicy, hactive, henabled, hnext, hpast, hresult⟩
  · rw [hsame]
    exact ⟨h, hdue, rfl⟩
  · obtain ⟨hmem, hpk⟩ := (Table.get?_eq_some_iff _ _ _).mp htarget
    have hisdue : due s.clock target = true := by
      unfold due
      rw [hnext]
      simpa using hpast
    have hlater := lt_calculateNextRun scheduledFor (some s.clock)
      (hdue target hmem henabled hisdue policy hpolicy hactive)
    rw [Option.getD_some] at hlater
    have hnew : keyUsed s targetId ⟨source, scheduledFor⟩ = false := by
      unfold keyUsed
      rw [List.any_eq_false]
      intro r hr hused
      simp only [Bool.and_eq_true, beq_iff_eq] at hused
      have hbefore := h.before r hr target hmem (hpk.trans hused.1.symm) scheduledFor hnext
      rw [hused.2] at hbefore
      exact lt_irrefl _ hbefore
    dsimp only at hresult
    rw [hnew] at hresult
    generalize calculateNextRun env policy scheduledFor target.pk (targetTimezoneName env target)
      (some s.clock) = nextRunAt at hlater hresult
    have hhandled : ∀ record ∈ s.handled ++
        [⟨s.clock, targetId, ⟨source, scheduledFor⟩, nextRunAt, false⟩],
        record.passedAt < record.nextRunAt ∧ record.keyUsed = false := by
      intro record hrecord
      rcases List.mem_append.mp hrecord with hrecord | hrecord
      · exact h.handled record hrecord
      · rw [List.mem_singleton.mp hrecord]
        exact ⟨hlater, rfl⟩
    rcases hresult with hresult | ⟨db, hdb, hresult⟩
    · rw [hresult]
      exact ⟨⟨h.past, h.before, hhandled⟩, hdue, rfl⟩
    · rw [hresult]
      have hrow : ∀ row ∈ db.targets, (row ∈ s.db.targets ∧ row.pk ≠ targetId) ∨
          (row.pk = targetId ∧ row.nextRunAt = some nextRunAt) := by
        intro row hrow
        rw [hdb] at hrow
        rcases (Table.mem_update _ _ _ (withNextRun_pk nextRunAt) _).mp hrow with hold | ⟨old, _, holdpk, rfl⟩
        · exact Or.inl hold
        · exact Or.inr ⟨holdpk, rfl⟩
      refine ⟨⟨?_, ?_, hhandled⟩, ?_, rfl⟩
      · intro r hr
        rcases List.mem_append.mp hr with hr | hr
        · exact h.past r hr
        · rw [List.mem_singleton.mp hr]
          exact hpast
      · intro r hr row hrowmem hrpk next hrownext
        rcases hrow row hrowmem with ⟨hold, hother⟩ | ⟨hsame, hset⟩
        · rcases List.mem_append.mp hr with hr | hr
          · exact h.before r hr row hold hrpk next hrownext
          · rw [List.mem_singleton.mp hr] at hrpk
            exact absurd hrpk hother
        · rw [hset, Option.some.injEq] at hrownext
          subst next
          rcases List.mem_append.mp hr with hr | hr
          · exact lt_of_le_of_lt (h.past r hr) hlater
          · rw [List.mem_singleton.mp hr]
            exact lt_of_le_of_lt hpast hlater
      · intro row hrowmem hrowenabled hrowdue
        rcases hrow row hrowmem with ⟨hold, _⟩ | ⟨_, hset⟩
        · exact hdue row hold hrowenabled hrowdue
        · rw [not_due_of_later hset hlater] at hrowdue
          exact absurd hrowdue Bool.false_ne_true

theorem inv_dispatchTargets {env : Environment} {now : Instant} (enqueued : ℕ → Enqueued)
    (ids : List ℕ) {acc : State × DispatchSummary} (h : Inv acc.1)
    (hdue : DueAhead env now acc.1.db) (hclock : acc.1.clock = now) :
    Inv (ids.foldl (dispatchTarget env now enqueued) acc).1 := by
  induction ids generalizing acc with
  | nil => exact h
  | cons targetId rest ih =>
    subst now
    have hnext := inv_dispatchTarget enqueued acc.2 targetId h hdue
    exact ih hnext.1 hnext.2.1 hnext.2.2

theorem inv_step {env : Environment} (hbackoff : PositiveBackoff env) (s : State) (label : Label)
    (s' : State) (h : Inv s) (hguard : SlotsNotRepeated env s label)
    (hstep : step env s label = some s') : Inv s' := by
  unfold step at hstep
  split at hstep
  · simp at hstep
  · rename_i htime
    have hclock := not_lt.mp htime
    cases label with
    | dispatch now limit workers enqueued =>
      obtain ⟨hadvance, hdue⟩ := dueAhead_initialize hguard
      have hinit := h.advance hclock hadvance
      rw [← Option.some.inj hstep]
      unfold dispatchDueTargets
      dsimp only
      split
      · exact hinit
      · cases workers with
        | absent => exact hinit
        | unknown => exact hinit
        | live => exact inv_dispatchTargets enqueued _ hinit hdue rfl
    | commitUnchanged runId latest rawChanged finishedAt =>
      obtain ⟨db, hdb, hresult⟩ := Option.bind_eq_some_iff.mp hstep
      rw [← Option.some.inj hresult]
      exact h.advance hclock (advances_commitUnchanged hdb hguard)
    | commitRevision runId previous commit =>
      obtain ⟨db, hdb, hresult⟩ := Option.bind_eq_some_iff.mp hstep
      rw [← Option.some.inj hresult]
      exact h.advance hclock (advances_commitRevision hdb hguard)
    | markFailed runId failure finishedAt =>
      obtain ⟨db, hdb, hresult⟩ := Option.bind_eq_some_iff.mp hstep
      rw [← Option.some.inj hresult]
      exact h.advance hclock (advances_markFailed hbackoff hdb hguard)

/-- While no slot ahead is a repeated one, every pass gives each target it
handles a later run, under a key that no run of the target has used. -/
theorem scheduler_never_wedges {env : Environment} {s t : State} {labels : List Label}
    (hbackoff : PositiveBackoff env) (hfresh : Fresh s)
    (hguard : Guarded (step env) (SlotsNotRepeated env) s labels)
    (hrun : exec (step env) s labels = some t) :
    ∀ record ∈ t.handled, record.passedAt < record.nextRunAt ∧ record.keyUsed = false :=
  (invariant_of_step Inv (inv_step hbackoff) (inv_fresh hfresh) hguard hrun).handled

/-- A target with one daily policy: 02:30 of the site's time zone, no retries. -/
def dailyEnvironment (zone : Zone) : Environment where
  policies k :=
    if k = 1 then some ⟨1, true, .daily (9000 * 1000000), true, 0, 0, []⟩ else none
  siteTimeZone _ := some "Europe/Berlin"
  timeZoneSetting := "UTC"
  zones name := if name = "Europe/Berlin" then some zone else none
  digest _ := 0

theorem positiveBackoff_daily (zone : Zone) : PositiveBackoff (dailyEnvironment zone) := by
  intro k policy hpolicy m hm
  by_cases hk : k = 1
  · simp only [dailyEnvironment, if_pos hk, Option.some.injEq] at hpolicy
    subst policy
    simp at hm
  · simp [dailyEnvironment, if_neg hk] at hpolicy

/-- The clocks of Berlin on 25 October 2026: 03:00 becomes 02:00 at 01:00 UTC. -/
def berlin : Zone := Zone.ofChange (1792890000 * 1000000) (7200 * 1000000) (3600 * 1000000)

def dailyState : State where
  db := { newTargetDatabase with
    targets := newTargetDatabase.targets.map (fun t => { t with policyOverride := some 1 })
      (fun _ => rfl) }
  dispatched := []
  clock := 0
  handled := []

/-- An instant of 25 October 2026, `n` minutes after midnight UTC. -/
def atMinute (n : ℤ) : Instant := (1792886400 + n * 60) * 1000000

def pass (n : ℤ) : Label := .dispatch (atMinute n) 100 .live (fun _ => ⟨atMinute n, 5⟩)

/-- The day's slot is queued at minute `n`, and its run fails forty minutes later. -/
def failedSlot (n : ℤ) : List Label :=
  [pass (-60), pass n, .markFailed 1 internalError (atMinute (n + 40))]

theorem guarded_utc {s : State} {labels : List Label} :
    Guarded (step (dailyEnvironment Zone.utc)) (SlotsNotRepeated (dailyEnvironment Zone.utc))
      s labels := by
  have hzone : ∀ name, zoneOf (dailyEnvironment Zone.utc) name = Zone.utc := by
    intro name
    unfold zoneOf dailyEnvironment
    dsimp only
    split <;> rfl
  have hslots : ∀ policy targetKey name t,
      SlotsAhead (dailyEnvironment Zone.utc) policy targetKey name t := by
    intro policy targetKey name t
    unfold SlotsAhead
    cases policy.schedule with
    | interval intervalMinutes positive => trivial
    | daily timeOfDay =>
      rw [hzone]
      intro d _
      exact Zone.not_repeated_utc _ t
  refine guarded_of_forall ?_
  intro label _ s
  cases label with
  | dispatch now limit workers enqueued =>
    exact fun _ _ _ => ⟨fun _ _ _ _ => hslots _ _ _ _, fun _ _ _ _ => hslots _ _ _ _⟩
  | commitUnchanged runId latest rawChanged finishedAt =>
    exact fun _ _ _ _ _ _ _ => hslots _ _ _ _
  | commitRevision runId previous commit => exact fun _ _ _ _ _ _ _ => hslots _ _ _ _
  | markFailed runId failure finishedAt => exact fun _ _ _ _ _ _ => hslots _ _ _ _

theorem scheduler_never_wedges_utc :
    ∃ t, exec (step (dailyEnvironment Zone.utc)) dailyState (failedSlot 150 ++ [pass 2000]) =
        some t ∧ t.handled.length = 2 ∧
      ∀ record ∈ t.handled, record.passedAt < record.nextRunAt ∧ record.keyUsed = false := by
  obtain ⟨t, hrun, hlength⟩ := (Option.any_eq_true _ _).mp (by decide +kernel :
    (exec (step (dailyEnvironment Zone.utc)) dailyState (failedSlot 150 ++ [pass 2000])).any
      (fun t => decide (t.handled.length = 2)) = true)
  exact ⟨t, hrun, of_decide_eq_true hlength,
    scheduler_never_wedges (positiveBackoff_daily _) ⟨rfl, rfl⟩ guarded_utc hrun⟩

/-- In Berlin the slot of 02:30 is queued at 00:30 UTC and its run fails at 01:10
UTC, in the repeated hour, which reschedules it to the first 02:30 again.
The next pass computes a next run in the past under a key that is in use, and
so does not advance; a day later the key of the slot is still refused. -/
theorem scheduler_wedges :
    ¬ ∀ (env : Environment) (s t : State) (labels : List Label), PositiveBackoff env → Fresh s →
      exec (step env) s labels = some t →
      ∀ record ∈ t.handled, record.passedAt < record.nextRunAt ∧ record.keyUsed = false := by
  intro h
  obtain ⟨t, hrun, hwedged⟩ := (Option.any_eq_true _ _).mp (by decide +kernel :
    (exec (step (dailyEnvironment berlin)) dailyState (failedSlot 30 ++ [pass 71, pass 2000])).any
      (fun t => t.handled.any (fun r => decide (r.nextRunAt ≤ r.passedAt)) &&
        t.handled.any (fun r => decide (r.passedAt = atMinute 2000) && r.keyUsed)) = true)
  obtain ⟨record, hrecord, hpast⟩ := List.any_eq_true.mp (Bool.and_eq_true_iff.mp hwedged).1
  have hlater := (h _ _ t _ (positiveBackoff_daily berlin) ⟨rfl, rfl⟩ hrun record hrecord).1
  exact absurd hlater (not_lt.mpr (of_decide_eq_true hpast))

end ConfigBackup.BackupDispatch
