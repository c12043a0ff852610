import ConfigBackup.RunLifecycle

/-!
Finished runs stay finished along guarded runs. Between `mark_running` and its
final write an execution owns its run, which is RUNNING: no second execution
passes `mark_running`, a cancellation refuses it, and the guard keeps the
reconciler and rejected executions away from it.
-/

namespace ConfigBackup.FinishedRuns

open Calendar GuardedRuns Models Repository RunLifecycle Tables

/-- Every finished run is still there, with the same row. -/
def Frozen (db db' : Database) : Prop :=
  ∀ run ∈ db.runs, run.status.active = false → run ∈ db'.runs

theorem Frozen.refl (db : Database) : Frozen db db := fun _ h _ => h

theorem Frozen.trans {db db' db'' : Database} (h : Frozen db db') (h' : Frozen db' db'') :
    Frozen db db'' :=
  fun run hrun hdone => h' run (h run hrun hdone) hdone

/-- The run exists and has the status. -/
def HasStatus (db : Database) (runId : ℕ) (status : RunStatus) : Prop :=
  ∃ run, db.runs.get? runId = some run ∧ run.status = status

def IsActive (db : Database) (runId : ℕ) : Prop :=
  ∃ run, db.runs.get? runId = some run ∧ run.status.active = true

theorem HasStatus.isActive {db : Database} {runId : ℕ} {status : RunStatus}
    (h : HasStatus db runId status) (hstatus : status.active = true) : IsActive db runId := by
  obtain ⟨run, hrun, rfl⟩ := h
  exact ⟨run, hrun, hstatus⟩

/-- The operation writes one run only, and only while that run is active. -/
structure WritesRun (db db' : Database) (runId : ℕ) : Prop where
  others : ∀ k, k ≠ runId → db'.runs.get? k = db.runs.get? k

theorem WritesRun.frozen {db db' : Database} {runId : ℕ} (h : WritesRun db db' runId)
    (hactive : IsActive db runId) : Frozen db db' := by
  intro run hrun hdone
  have hne : run.pk ≠ runId := by
    intro heq
    obtain ⟨active, hget, hactive⟩ := hactive
    have hself := db.runs.get?_of_mem hrun
    rw [heq, hget, Option.some.injEq] at hself
    rw [hself, hdone] at hactive
    cases hactive
  have hget := h.others run.pk hne
  rw [db.runs.get?_of_mem hrun] at hget
  exact ((Table.get?_eq_some_iff _ _ _).mp hget).1

theorem WritesRun.hasStatus {db db' : Database} {runId k : ℕ} {status : RunStatus}
    (h : WritesRun db db' runId) (hne : k ≠ runId) (hk : HasStatus db k status) :
    HasStatus db' k status := by
  obtain ⟨run, hrun, hstatus⟩ := hk
  exact ⟨run, (h.others k hne).trans hrun, hstatus⟩

theorem writesRun_of_update {db db' : Database} {runId : ℕ} {f : BackupRun → BackupRun}
    (h : ∃ hf, db'.runs = db.runs.update runId f hf) : WritesRun db db' runId := by
  obtain ⟨hf, h⟩ := h
  refine ⟨fun k hk => ?_⟩
  rw [h, Table.get?_update, if_neg hk]

section Operations

variable {scheduler : Scheduler} {db db' : Database} {runId : ℕ}

theorem markRunning_spec {startedAt : Instant} (h : markRunning db runId startedAt = some db') :
    HasStatus db runId .queued ∧ WritesRun db db' runId ∧ HasStatus db' runId .running := by
  unfold markRunning at h
  obtain ⟨run, hrun, h⟩ := Option.bind_eq_some_iff.mp h
  by_cases hqueued : run.status = .queued
  · rw [if_neg (by simpa using hqueued), Option.some.injEq] at h
    subst h
    refine ⟨⟨run, hrun, hqueued⟩, writesRun_of_update ⟨by exact fun _ => rfl, rfl⟩, ?_⟩
    unfold HasStatus saveRun
    rw [Table.get?_update, if_pos rfl, hrun]
    exact ⟨_, rfl, rfl⟩
  · rw [if_pos hqueued] at h
    cases h

theorem cancel_spec {job : JobEvidence} {now : Instant}
    (h : cancelQueuedBackupRun db runId job now = some db') :
    HasStatus db runId .queued ∧ WritesRun db db' runId := by
  unfold cancelQueuedBackupRun at h
  obtain ⟨run, hrun, h⟩ := Option.bind_eq_some_iff.mp h
  split at h
  · cases h
  · rename_i hqueued
    split at h
    · cases h
    · rw [Option.some.injEq] at h
      subst h
      exact ⟨⟨run, hrun, by simpa using hqueued⟩, writesRun_of_update ⟨by exact fun _ => rfl, rfl⟩⟩

theorem commitUnchanged_spec {latest : Option ConfigRevision} {rawChanged : Bool}
    {finishedAt : Instant}
    (h : commitUnchanged scheduler db runId latest rawChanged finishedAt = some db') :
    WritesRun db db' runId := by
  unfold commitUnchanged at h
  obtain ⟨run, _, h⟩ := Option.bind_eq_some_iff.mp h
  obtain ⟨target, _, h⟩ := Option.bind_eq_some_iff.mp h
  rw [Option.some.injEq] at h
  subst h
  exact writesRun_of_update ⟨by exact fun _ => rfl, rfl⟩

theorem commitRevision_spec {previous : Option ConfigRevision} {commit : RevisionCommit}
    (h : commitRevision scheduler db runId previous commit = some db') :
    WritesRun db db' runId := by
  unfold commitRevision at h
  obtain ⟨run, _, h⟩ := Option.bind_eq_some_iff.mp h
  obtain ⟨target, _, h⟩ := Option.bind_eq_some_iff.mp h
  rw [Option.some.injEq] at h
  subst h
  exact writesRun_of_update ⟨by exact fun _ => rfl, rfl⟩

theorem markFailed_spec {failure : RunFailure} {finishedAt : Instant}
    (h : markFailed scheduler db runId failure finishedAt = some db') :
    WritesRun db db' runId := by
  unfold markFailed at h
  obtain ⟨run, _, h⟩ := Option.bind_eq_some_iff.mp h
  obtain ⟨target, _, h⟩ := Option.bind_eq_some_iff.mp h
  rw [Option.some.injEq] at h
  subst h
  exact writesRun_of_update ⟨by exact fun _ => rfl, rfl⟩

theorem enqueue_others {targetId : ℕ} {queuedAt : Instant} {jobId : Option ℕ}
    (h : enqueueBackupRun db targetId queuedAt jobId = some db') {k : ℕ} {run : BackupRun}
    (hrun : db.runs.get? k = some run) : db'.runs.get? k = some run := by
  unfold enqueueBackupRun at h
  split at h
  · cases h
  · rw [Option.some.injEq] at h
    subst h
    have hne : k ≠ db.runs.next := by
      intro hk
      rw [hk, Table.get?_next] at hrun
      cases hrun
    rw [Table.get?_insert, if_neg hne]
    exact hrun

end Operations

/-- The reconciler marks only unfinished runs without a live execution, and the
exception handler writes only for an execution that passed `mark_running`, or
that could not read its context while the run is still queued. -/
def guard (s : State) : Label → Prop
  | .markFailed executionId _ => ∀ e, s.executions.get? executionId = some e →
      e.phase.passed = true ∨ (e.phase = .unreadable ∧ HasStatus s.db e.run .queued)
  | .reconcileMark runId _ => IsActive s.db runId ∧
      ∀ e ∈ s.executions, e.phase.passed = true → e.run ≠ runId
  | _ => True

/-- Executions that passed `mark_running` own distinct running runs. -/
structure Inv (s : State) : Prop where
  running : ∀ e ∈ s.executions, e.phase.passed = true → HasStatus s.db e.run .running
  unique : ∀ e ∈ s.executions, ∀ e' ∈ s.executions, e.phase.passed = true →
    e'.phase.passed = true → e.run = e'.run → e = e'

section Steps

variable {s : State} {db' : Database} {runId : ℕ}

theorem HasStatus.unique {db : Database} {status status' : RunStatus}
    (h : HasStatus db runId status) (h' : HasStatus db runId status') : status = status' := by
  obtain ⟨run, hrun, rfl⟩ := h
  obtain ⟨run', hrun', rfl⟩ := h'
  rw [hrun, Option.some.injEq] at hrun'
  rw [hrun']

theorem mem_addExecution {phase : Phase} {e : Execution} :
    e ∈ (addExecution s db' runId phase).executions ↔
      e ∈ s.executions ∨ e = ⟨s.executions.next, runId, phase⟩ := by
  unfold addExecution
  exact Table.mem_insert _ _ _ _

theorem mem_endExecution {executionId : ℕ} {e : Execution} :
    e ∈ (endExecution s db' executionId).executions ↔
      e ∈ s.executions ∧ e.pk ≠ executionId := by
  unfold endExecution
  simp

/-- A transaction that touches no run of a live execution keeps the invariant. -/
theorem Inv.with_db (h : Inv s) (hwrites : WritesRun s.db db' runId)
    (hfree : ∀ e ∈ s.executions, e.phase.passed = true → e.run ≠ runId) :
    Inv { s with db := db' } where
  running e he hpassed := hwrites.hasStatus (hfree e he hpassed) (h.running e he hpassed)
  unique := h.unique

/-- A queued run belongs to no execution that passed `mark_running`. -/
theorem Inv.free_of_queued (h : Inv s) (hqueued : HasStatus s.db runId .queued) :
    ∀ e ∈ s.executions, e.phase.passed = true → e.run ≠ runId := by
  intro e he hpassed heq
  have hrunning := h.running e he hpassed
  rw [heq] at hrunning
  cases hqueued.unique hrunning

theorem Inv.add_passed (h : Inv s) (hwrites : WritesRun s.db db' runId)
    (hqueued : HasStatus s.db runId .queued) (hrunning : HasStatus db' runId .running) :
    Inv (addExecution s db' runId .collecting) where
  running e he hpassed := by
    rcases mem_addExecution.mp he with he | rfl
    · exact hwrites.hasStatus (h.free_of_queued hqueued e he hpassed) (h.running e he hpassed)
    · exact hrunning
  unique e he e' he' hpassed hpassed' hsame := by
    rcases mem_addExecution.mp he with he | rfl
    · rcases mem_addExecution.mp he' with he' | rfl
      · exact h.unique e he e' he' hpassed hpassed' hsame
      · exact absurd hsame (h.free_of_queued hqueued e he hpassed)
    · rcases mem_addExecution.mp he' with he' | rfl
      · exact absurd hsame.symm (h.free_of_queued hqueued e' he' hpassed')
      · rfl

theorem Inv.add_stopped (h : Inv s) {phase : Phase} (hphase : phase.passed = false) :
    Inv (addExecution s s.db runId phase) where
  running e he hpassed := by
    rcases mem_addExecution.mp he with he | rfl
    · exact h.running e he hpassed
    · rw [hphase] at hpassed
      cases hpassed
  unique e he e' he' hpassed hpassed' hsame := by
    rcases mem_addExecution.mp he with he | rfl
    · rcases mem_addExecution.mp he' with he' | rfl
      · exact h.unique e he e' he' hpassed hpassed' hsame
      · rw [hphase] at hpassed'
        cases hpassed'
    · rw [hphase] at hpassed
      cases hpassed

theorem Inv.end_execution (h : Inv s) {execution : Execution}
    (hwrites : WritesRun s.db db' execution.run)
    (hfree : ∀ e ∈ s.executions, e.phase.passed = true → e ≠ execution →
      e.run ≠ execution.run) : Inv (endExecution s db' execution.pk) where
  running e he hpassed := by
    obtain ⟨he, hne⟩ := mem_endExecution.mp he
    have hother : e ≠ execution := fun heq => hne (by rw [heq])
    exact hwrites.hasStatus (hfree e he hpassed hother) (h.running e he hpassed)
  unique e he e' he' :=
    h.unique e (mem_endExecution.mp he).1 e' (mem_endExecution.mp he').1

/-- A final write of an execution that owns its run. -/
theorem finish_owned (h : Inv s) {execution : Execution} (hmem : execution ∈ s.executions)
    (hpassed : execution.phase.passed = true) (hwrites : WritesRun s.db db' execution.run) :
    Inv (endExecution s db' execution.pk) ∧ Frozen s.db db' := by
  refine ⟨h.end_execution hwrites ?_, hwrites.frozen ?_⟩
  · intro e he hpassed' hne hsame
    exact hne (h.unique e he execution hmem hpassed' hpassed hsame)
  · exact (h.running execution hmem hpassed).isActive rfl

end Steps

section Run

variable {scheduler : Scheduler}

theorem get_execution {s : State} {executionId : ℕ} {execution : Execution}
    (h : s.executions.get? executionId = some execution) :
    execution ∈ s.executions ∧ execution.pk = executionId :=
  (Table.get?_eq_some_iff _ _ _).mp h

/-- One case per label: which run it writes, and why that run is unfinished. -/
theorem step_spec {s s' : State} {label : Label} (h : Inv s) (hguard : guard s label)
    (hstep : step scheduler s label = some s') : Inv s' ∧ Frozen s.db s'.db := by
  cases label with
  | enqueue targetId queuedAt jobId =>
    obtain ⟨db', hdb, hs'⟩ := Option.bind_eq_some_iff.mp hstep
    rw [Option.some.injEq] at hs'
    subst hs'
    refine ⟨⟨fun e he hpassed => ?_, h.unique⟩, fun run hrun _ => ?_⟩
    · obtain ⟨run, hrun, hstatus⟩ := h.running e he hpassed
      exact ⟨run, enqueue_others hdb hrun, hstatus⟩
    · have hget := enqueue_others hdb (s.db.runs.get?_of_mem hrun)
      exact ((Table.get?_eq_some_iff _ _ _).mp hget).1
  | cancel runId job now =>
    obtain ⟨db', hdb, hs'⟩ := Option.bind_eq_some_iff.mp hstep
    rw [Option.some.injEq] at hs'
    subst hs'
    obtain ⟨hqueued, hwrites⟩ := cancel_spec hdb
    exact ⟨h.with_db hwrites (h.free_of_queued hqueued),
      hwrites.frozen (hqueued.isActive rfl)⟩
  | start runId contextReadable startedAt =>
    unfold step at hstep
    cases contextReadable with
    | false =>
      simp only [Bool.not_false, if_true, Option.some.injEq] at hstep
      subst hstep
      exact ⟨h.add_stopped rfl, Frozen.refl _⟩
    | true =>
      simp only [Bool.not_true, Bool.false_eq_true, if_false] at hstep
      cases hmark : markRunning s.db runId startedAt with
      | none =>
        simp only [hmark, Option.some.injEq] at hstep
        subst hstep
        exact ⟨h.add_stopped rfl, Frozen.refl _⟩
      | some db' =>
        simp only [hmark, Option.some.injEq] at hstep
        subst hstep
        obtain ⟨hqueued, hwrites, hrunning⟩ := markRunning_spec hmark
        exact ⟨h.add_passed hwrites hqueued hrunning, hwrites.frozen (hqueued.isActive rfl)⟩
  | raise executionId expected =>
    obtain ⟨execution, hget, hstep⟩ := Option.bind_eq_some_iff.mp hstep
    split at hstep
    · cases hstep
    · rename_i hphase
      rw [Option.some.injEq] at hstep
      subst hstep
      refine ⟨?_, Frozen.refl _⟩
      -- The updated execution had passed already, and keeps its run and key.
      have horigin : ∀ e ∈ s.executions.update executionId
          (fun e => { e with phase := .failing (raisedFailure expected) }) (fun _ => rfl),
          e.phase.passed = true →
          ∃ e₀ ∈ s.executions, e₀.phase.passed = true ∧ e₀.run = e.run ∧ e₀.pk = e.pk := by
        intro e he hpassed
        rcases (Table.mem_update _ _ _ _ _).mp he with ⟨he, _⟩ | ⟨e₀, he₀, hkey, rfl⟩
        · exact ⟨e, he, hpassed, rfl, rfl⟩
        · obtain ⟨hmem, hpk⟩ := get_execution hget
          have hsame : e₀ = execution := s.executions.eq_of_key_eq he₀ hmem (hkey.trans hpk.symm)
          have hcollecting : execution.phase = .collecting := by simpa using hphase
          exact ⟨e₀, he₀, by rw [hsame, hcollecting]; rfl, rfl, rfl⟩
      refine ⟨fun e he hpassed => ?_, fun e he e' he' hpassed hpassed' hsame => ?_⟩
      · obtain ⟨e₀, he₀, hp₀, hrun, _⟩ := horigin e he hpassed
        rw [← hrun]
        exact h.running e₀ he₀ hp₀
      · obtain ⟨e₀, he₀, hp₀, hrun, hpk⟩ := horigin e he hpassed
        obtain ⟨e₁, he₁, hp₁, hrun', hpk'⟩ := horigin e' he' hpassed'
        have hone := h.unique e₀ he₀ e₁ he₁ hp₀ hp₁ (by rw [hrun, hrun', hsame])
        exact Table.eq_of_key_eq _ he he' (by rw [← hpk, ← hpk', hone])
  | commitUnchanged executionId latest rawChanged finishedAt =>
    obtain ⟨execution, hget, hstep⟩ := Option.bind_eq_some_iff.mp hstep
    obtain ⟨run, _, hstep⟩ := Option.bind_eq_some_iff.mp hstep
    split at hstep
    · cases hstep
    · rename_i hcond
      obtain ⟨db', hdb, hs'⟩ := Option.bind_eq_some_iff.mp hstep
      rw [Option.some.injEq] at hs'
      subst hs'
      obtain ⟨hmem, rfl⟩ := get_execution hget
      have hcollecting : execution.phase = .collecting := by
        by_contra hne
        exact hcond (Or.inl hne)
      exact finish_owned h hmem (by rw [hcollecting]; rfl) (commitUnchanged_spec hdb)
  | commitRevision executionId previous commit =>
    obtain ⟨execution, hget, hstep⟩ := Option.bind_eq_some_iff.mp hstep
    obtain ⟨run, _, hstep⟩ := Option.bind_eq_some_iff.mp hstep
    split at hstep
    · cases hstep
    · rename_i hcond
      obtain ⟨db', hdb, hs'⟩ := Option.bind_eq_some_iff.mp hstep
      rw [Option.some.injEq] at hs'
      subst hs'
      obtain ⟨hmem, rfl⟩ := get_execution hget
      have hcollecting : execution.phase = .collecting := by
        by_contra hne
        exact hcond (Or.inl hne)
      exact finish_owned h hmem (by rw [hcollecting]; rfl) (commitRevision_spec hdb)
  | markFailed executionId finishedAt =>
    obtain ⟨execution, hget, hstep⟩ := Option.bind_eq_some_iff.mp hstep
    obtain ⟨failure, _, hstep⟩ := Option.bind_eq_some_iff.mp hstep
    obtain ⟨db', hdb, hs'⟩ := Option.bind_eq_some_iff.mp hstep
    rw [Option.some.injEq] at hs'
    subst hs'
    obtain ⟨hmem, rfl⟩ := get_execution hget
    have hwrites := markFailed_spec hdb
    rcases hguard execution hget with hpassed | ⟨_, hqueued⟩
    · exact finish_owned h hmem hpassed hwrites
    · refine ⟨h.end_execution hwrites ?_, hwrites.frozen (hqueued.isActive rfl)⟩
      exact fun e he hpassed _ => h.free_of_queued hqueued e he hpassed
  | die executionId =>
    unfold step at hstep
    rw [Option.some.injEq] at hstep
    subst hstep
    refine ⟨⟨fun e he => h.running e (mem_endExecution.mp he).1, fun e he e' he' =>
      h.unique e (mem_endExecution.mp he).1 e' (mem_endExecution.mp he').1⟩, Frozen.refl _⟩
  | reconcileQuery now staleAfterMinutes =>
    unfold step at hstep
    rw [Option.some.injEq] at hstep
    subst hstep
    exact ⟨⟨h.running, h.unique⟩, Frozen.refl _⟩
  | reconcileSkip runId =>
    unfold step at hstep
    rw [Option.some.injEq] at hstep
    subst hstep
    exact ⟨⟨h.running, h.unique⟩, Frozen.refl _⟩
  | reconcileMark runId now =>
    simp only [step] at hstep
    split at hstep
    · cases hstep
    · obtain ⟨db', hdb, hs'⟩ := Option.bind_eq_some_iff.mp hstep
      rw [Option.some.injEq] at hs'
      subst hs'
      have hwrites := markFailed_spec hdb
      have hkept := h.with_db hwrites hguard.2
      exact ⟨⟨hkept.running, hkept.unique⟩, hwrites.frozen hguard.1⟩

/-- A step of an execution whose run `mark_running` found not queued. -/
def ByRejected (s : State) : Label → Prop
  | .start runId contextReadable _ => contextReadable = true ∧ ¬ HasStatus s.db runId .queued
  | .raise executionId _ | .commitUnchanged executionId _ _ _ | .commitRevision executionId _ _
  | .markFailed executionId _ | .die executionId =>
    ∃ e, s.executions.get? executionId = some e ∧ e.phase = .rejected
  | _ => False

theorem rejected_writes_nothing {s s' : State} {label : Label} (hguard : guard s label)
    (hstep : step scheduler s label = some s') (hrejected : ByRejected s label) :
    s'.db = s.db := by
  -- A commit needs an execution that is still collecting.
  have hcommit : ∀ {executionId e}, s.executions.get? executionId = some e →
      (∃ e, s.executions.get? executionId = some e ∧ e.phase = .rejected) →
      e.phase ≠ .collecting := by
    intro executionId e hget ⟨e', hget', hphase⟩
    rw [hget, Option.some.injEq] at hget'
    rw [hget', hphase]
    decide
  cases label with
  | start runId contextReadable startedAt =>
    obtain ⟨rfl, hnot⟩ := hrejected
    unfold step at hstep
    simp only [Bool.not_true, Bool.false_eq_true, if_false] at hstep
    cases hmark : markRunning s.db runId startedAt with
    | none =>
      simp only [hmark, Option.some.injEq] at hstep
      subst hstep
      rfl
    | some db' => exact absurd (markRunning_spec hmark).1 hnot
  | raise executionId expected =>
    obtain ⟨e, hget, hstep⟩ := Option.bind_eq_some_iff.mp hstep
    rw [if_pos (hcommit hget hrejected)] at hstep
    cases hstep
  | commitUnchanged executionId latest rawChanged finishedAt =>
    obtain ⟨e, hget, hstep⟩ := Option.bind_eq_some_iff.mp hstep
    obtain ⟨run, _, hstep⟩ := Option.bind_eq_some_iff.mp hstep
    rw [if_pos (Or.inl (hcommit hget hrejected))] at hstep
    cases hstep
  | commitRevision executionId previous commit =>
    obtain ⟨e, hget, hstep⟩ := Option.bind_eq_some_iff.mp hstep
    obtain ⟨run, _, hstep⟩ := Option.bind_eq_some_iff.mp hstep
    rw [if_pos (Or.inl (hcommit hget hrejected))] at hstep
    cases hstep
  | markFailed executionId finishedAt =>
    obtain ⟨e, hget, hphase⟩ := hrejected
    rcases hguard e hget with hpassed | ⟨hunreadable, _⟩
    · rw [hphase] at hpassed
      cases hpassed
    · rw [hphase] at hunreadable
      cases hunreadable
  | die executionId =>
    simp only [step, Option.some.injEq] at hstep
    subst hstep
    rfl
  | enqueue _ _ _ => exact hrejected.elim
  | cancel _ _ _ => exact hrejected.elim
  | reconcileQuery _ _ => exact hrejected.elim
  | reconcileSkip _ => exact hrejected.elim
  | reconcileMark _ _ => exact hrejected.elim

/-- Any database, with no execution and no reconciler at work. -/
def initial (db : Database) : State := ⟨db, Table.empty, []⟩

theorem inv_initial (db : Database) : Inv (initial db) where
  running e he := absurd he (Table.mem_empty e)
  unique e he := absurd he (Table.mem_empty e)

/-- Along the run, finished runs keep their row, and an execution whose run was
not queued at `mark_running` writes nothing. -/
def FinishedRunsStay (scheduler : Scheduler) (db : Database) (labels : List Label) : Prop :=
  (∀ pre post u t, labels = pre ++ post → exec (step scheduler) (initial db) pre = some u →
    exec (step scheduler) u post = some t → Frozen u.db t.db) ∧
  (∀ pre label post u u', labels = pre ++ label :: post →
    exec (step scheduler) (initial db) pre = some u → step scheduler u label = some u' →
    ByRejected u label → u'.db = u.db)

theorem finished_runs_stay (scheduler : Scheduler) (db : Database) (labels : List Label)
    (hg : Guarded (step scheduler) guard (initial db) labels) :
    FinishedRunsStay scheduler db labels := by
  have hinv : ∀ {s s' a}, Inv s → guard s a → step scheduler s a = some s' → Inv s' :=
    fun h hguard hstep => (step_spec h hguard hstep).1
  constructor
  · intro pre post u t hlabels hpre hpost
    subst hlabels
    obtain ⟨hgpre, hgpost⟩ := guarded_append hpre hg
    have hu : Inv u :=
      invariant_of_step Inv (fun _ _ _ h hguard hstep => hinv h hguard hstep) (inv_initial db)
        hgpre hpre
    exact relation_of_step Inv (fun s s' => Frozen s.db s'.db) (fun s => Frozen.refl s.db)
      Frozen.trans (fun _ _ _ h hguard hstep => step_spec h hguard hstep) hu hgpost hpost
  · intro pre label post u u' hlabels hpre hstep hrejected
    subst hlabels
    obtain ⟨_, hgpost⟩ := guarded_append hpre hg
    exact rejected_writes_nothing hgpost.1 hstep hrejected

/-- A target without any backup run, revision or copy. -/
def newTargetDatabase : Database where
  targets := ⟨[{
    pk := 1, deviceId := 7, deviceName := some "router", enabled := true, policyOverride := none
    retentionOverride := none, remoteRetentionPolicy := none, nextRunAt := none
    lastAttemptAt := none, lastSuccessAt := none, lastChangeAt := none, status := .never
    consecutiveFailures := 0, lastRevision := none }], 2, by decide, by decide⟩
  destinations := Table.empty
  backupPolicies := Table.empty
  retentionPolicies := Table.empty
  remotePolicies := Table.empty
  revisions := Table.empty
  artifacts := Table.empty
  replicas := Table.empty
  runs := Table.empty

def noSchedule : Scheduler := ⟨fun _ _ => none, fun _ _ _ => none⟩

def firstCommit : RevisionCommit where
  revisionUuid := "revision-1"
  normalizedHash := "hash-1"
  normalizerVersion := "1"
  driverId := "driver"
  contentChanged := true
  rawChanged := true
  artifacts := [⟨"running", "text", "devices/7/revisions/revision-1/running.txt", 5, "raw-1",
    "hash-1", true⟩]
  created := 10
  finishedAt := 11

theorem finished_runs_stay_backup :
    FinishedRunsStay noSchedule newTargetDatabase
      [.enqueue 1 0 none, .start 1 true 1, .commitRevision 1 none firstCommit, .start 1 true 20,
        .die 2] :=
  finished_runs_stay noSchedule newTargetDatabase _
    ⟨trivial, fun _ _ => ⟨trivial, fun _ _ => ⟨trivial, fun _ _ => ⟨trivial, fun _ _ =>
      ⟨trivial, fun _ _ => trivial⟩⟩⟩⟩⟩

/-- A second execution of a successful run is rejected by `mark_running`; its
exception handler then records a failure over the success. -/
theorem finished_run_rewritten :
    ¬ ∀ (scheduler : Scheduler) (db : Database) (labels : List Label),
      FinishedRunsStay scheduler db labels := by
  intro h
  let pre : List Label :=
    [.enqueue 1 0 none, .start 1 true 1, .commitRevision 1 none firstCommit]
  let post : List Label := [.start 1 true 20, .markFailed 2 21]
  have hfrozen := (h noSchedule newTargetDatabase (pre ++ post)).1 pre post _ _ rfl rfl rfl
    ⟨1, 1, 0, some 1, some 11, .successChanged, "", "", some 1, true, true, none⟩
    List.mem_cons_self rfl
  have hrow := List.mem_singleton.mp hfrozen
  cases hrow

end Run

end ConfigBackup.FinishedRuns
