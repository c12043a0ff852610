import ConfigBackup.Repository
import ConfigBackup.Text
import Mathlib.Data.List.GetD

/-!
Regular runs and retries of scheduled backups. A wall-clock time counts
microseconds like an instant does, and a time zone relates the two: its rules
may set the local clock forward, which leaves a gap, or back, which repeats
a part of the day. Wall-clock times of one zone compare without regard to
which of two equal readings is meant, and a repeated one converts to its
first occurrence.
-/

namespace ConfigBackup.Scheduling

open Calendar Models Repository Text

abbrev WallTime := ℤ

/-- The rules of a time zone. `utcoffset` reads a wall-clock time with fold 0:
a repeated time is its first occurrence, and a time in a gap converts with the
offset before the gap, so that the clock then shows a later time. -/
structure Zone where
  offset : Instant → ℤ
  utcoffset : WallTime → ℤ
  wall_le : ∀ w, w ≤ w - utcoffset w + offset (w - utcoffset w)

namespace Zone

/-- `astimezone(zone)`, as the local clock shows it. -/
def toLocal (zone : Zone) (t : Instant) : WallTime := t + zone.offset t

/-- `astimezone(UTC)` of a wall-clock time of the zone. -/
def toUtc (zone : Zone) (w : WallTime) : Instant := w - zone.utcoffset w

theorem le_toLocal_toUtc (zone : Zone) (w : WallTime) : w ≤ zone.toLocal (zone.toUtc w) :=
  zone.wall_le w

/-- The local clock shows a time before `w` although it had reached `w`. -/
def Repeated (zone : Zone) (w : WallTime) (t : Instant) : Prop :=
  zone.toLocal t < w ∧ ∃ u ≤ t, w ≤ zone.toLocal u

/-- A wall-clock time ahead of the local clock converts to a later instant,
unless the local clock was set back past it. -/
theorem lt_toUtc {zone : Zone} {w : WallTime} {t : Instant} (hw : zone.toLocal t < w)
    (h : ¬ zone.Repeated w t) : t < zone.toUtc w := by
  by_contra hle
  exact h ⟨hw, zone.toUtc w, not_lt.mp hle, zone.le_toLocal_toUtc w⟩

/-- The offset at the instant of a wall-clock time is the one it was read with,
or a greater one just after a gap. -/
theorem le_of_change (change before after w : ℤ) :
    w ≤ w - (if w < change + max before after then before else after) +
      (if w - (if w < change + max before after then before else after) < change then before
        else after) := by
  by_cases hw : w < change + max before after
  · rw [if_pos hw]
    split <;> omega
  · rw [if_neg hw]
    split <;> omega

/-- The zone whose offset changes once, from `before` to `after`. The greater of
the two offsets tells when the local clock shows the change. -/
def ofChange (change : Instant) (before after : ℤ) : Zone where
  offset t := if t < change then before else after
  utcoffset w := if w < change + max before after then before else after
  wall_le := le_of_change change before after

def utc : Zone := ofChange 0 0 0

theorem not_repeated_utc (w : WallTime) (t : Instant) : ¬ utc.Repeated w t := by
  rintro ⟨hw, u, hu, hle⟩
  have hlocal : ∀ s, utc.toLocal s = s := by
    intro s
    simp [toLocal, utc, ofChange]
  rw [hlocal] at hw hle
  exact absurd (lt_of_lt_of_le hw hle) (not_lt.mpr hu)

end Zone

/-- The schedule of a policy; its columns fit the schedule type by a database
constraint, and a run is computed only from a positive interval. -/
inductive Schedule
  | interval (intervalMinutes : ℕ) (positive : 0 < intervalMinutes)
  | daily (timeOfDay : ℕ)
deriving DecidableEq, Repr

/-- The scheduling columns of a backup policy. -/
structure SchedulePolicy where
  pk : ℕ
  enabled : Bool
  schedule : Schedule
  siteTimeZone : Bool
  jitterMinutes : ℕ
  maxRetries : ℕ
  retryBackoffMinutes : List ℕ
deriving DecidableEq, Repr

/-- What the scheduler reads besides the target: the policies, the time zone
of a device's site, the server's setting and the zone database, and the first
eight bytes of a SHA-256 digest. -/
structure Environment where
  policies : ℕ → Option SchedulePolicy
  siteTimeZone : ℕ → Option String
  timeZoneSetting : String
  zones : String → Option Zone
  digest : List Char → ℕ

def fourDigits (n : ℕ) : List Char := twoDigits (n / 100) ++ twoDigits (n % 100)

/-- `date.isoformat()`. -/
def isoDate (d : Date) : List Char :=
  let c := civil d
  joinWith '-' [fourDigits c.year.toNat, twoDigits c.month.toNat, twoDigits c.day.toNat]

/-- `_deterministic_jitter_minutes`. -/
def deterministicJitterMinutes (env : Environment) (targetKey policyKey : ℕ) (localDate : Date)
    (maximum : ℕ) : ℕ :=
  if maximum = 0 then 0
  else env.digest (joinWith ':' [Nat.toDigits 10 targetKey, Nat.toDigits 10 policyKey,
    isoDate localDate]) %
    (maximum + 1)

/-- `_zone`, which falls back to UTC for an unknown name. -/
def zoneOf (env : Environment) (timezoneName : String) : Zone :=
  (env.zones timezoneName).getD Zone.utc

/-- `_daily_candidate`: the slot of one local date, on the wall clock. -/
def dailyCandidate (env : Environment) (policy : SchedulePolicy) (timeOfDay : ℕ)
    (candidateDate : Date) (targetKey : ℕ) : WallTime :=
  days 1 * candidateDate + timeOfDay +
    minutes (deterministicJitterMinutes env targetKey policy.pk candidateDate policy.jitterMinutes)

/-- The next regular run after `now`, or after `after` without it. -/
def calculateNextRun (env : Environment) (policy : SchedulePolicy) (after : Instant)
    (targetKey : ℕ) (timezoneName : String) (now : Option Instant) : Instant :=
  let reference := now.getD after
  match policy.schedule with
  | .interval intervalMinutes _ =>
    let interval := minutes intervalMinutes
    let candidate := after + interval
    if candidate ≤ reference then
      let missed := (reference - candidate) / interval + 1
      candidate + missed * interval
    else candidate
  | .daily timeOfDay =>
    let zone := zoneOf env timezoneName
    let localReference := zone.toLocal reference
    let candidateDate := date localReference
    let candidate := dailyCandidate env policy timeOfDay candidateDate targetKey
    if candidate ≤ localReference then
      zone.toUtc (dailyCandidate env policy timeOfDay (candidateDate + 1) targetKey)
    else zone.toUtc candidate

/-- No daily slot ahead on the local clock is one that it has already shown. -/
def SlotsAhead (env : Environment) (policy : SchedulePolicy) (targetKey : ℕ)
    (timezoneName : String) (t : Instant) : Prop :=
  match policy.schedule with
  | .interval _ _ => True
  | .daily timeOfDay =>
    let zone := zoneOf env timezoneName
    ∀ d, d = date (zone.toLocal t) ∨ d = date (zone.toLocal t) + 1 →
      ¬ zone.Repeated (dailyCandidate env policy timeOfDay d targetKey) t

theorem lt_next_interval {candidate reference interval : ℤ} (hinterval : 0 < interval) :
    reference < candidate + ((reference - candidate) / interval + 1) * interval := by
  have hquotient := Int.lt_ediv_add_one_mul_self (reference - candidate) hinterval
  omega

theorem minutes_pos {n : ℕ} (hn : 0 < n) : 0 < minutes n := by
  unfold minutes microsecondsPerSecond
  omega

theorem lt_next_day (w : ℤ) (timeOfDay jitter : ℕ) :
    w < days 1 * (w / (86400 * microsecondsPerSecond) + 1) + timeOfDay + minutes jitter := by
  unfold days minutes microsecondsPerSecond
  omega

/-- The slot of the next local date lies ahead of the local clock. -/
theorem lt_dailyCandidate_next (env : Environment) (policy : SchedulePolicy) (timeOfDay : ℕ)
    (w : WallTime) (targetKey : ℕ) :
    w < dailyCandidate env policy timeOfDay (date w + 1) targetKey :=
  lt_next_day w timeOfDay _

/-- The next regular run is later than the time it is computed at. -/
theorem lt_calculateNextRun {env : Environment} {policy : SchedulePolicy} {targetKey : ℕ}
    {timezoneName : String} (after : Instant) (now : Option Instant)
    (h : SlotsAhead env policy targetKey timezoneName (now.getD after)) :
    now.getD after < calculateNextRun env policy after targetKey timezoneName now := by
  unfold calculateNextRun
  unfold SlotsAhead at h
  generalize now.getD after = reference at h ⊢
  cases hschedule : policy.schedule with
  | interval intervalMinutes positive =>
    dsimp only
    by_cases hmissed : after + minutes intervalMinutes ≤ reference
    · rw [if_pos hmissed]
      exact lt_next_interval (minutes_pos positive)
    · rw [if_neg hmissed]
      exact not_le.mp hmissed
  | daily timeOfDay =>
    rw [hschedule] at h
    dsimp only at h ⊢
    split
    · exact Zone.lt_toUtc (lt_dailyCandidate_next env policy timeOfDay _ targetKey)
        (h _ (Or.inr rfl))
    · rename_i hahead
      exact Zone.lt_toUtc (not_le.mp hahead) (h _ (Or.inl rfl))

/-- The entry of the backoff list; the index -1 is the last entry. -/
def backoffIndex (consecutiveFailures length : ℕ) : ℕ :=
  if consecutiveFailures = 0 then length - 1 else min (consecutiveFailures - 1) (length - 1)

/-- A retry deadline, or the next regular run when the retries are used up. -/
def calculateFailureNextRun (env : Environment) (policy : Option SchedulePolicy)
    (failedAt : Instant) (consecutiveFailures targetKey : ℕ) (timezoneName : String) :
    Option Instant :=
  match policy with
  | none => none
  | some policy =>
    if !policy.enabled then none
    else
      let backoff := policy.retryBackoffMinutes
      if consecutiveFailures ≤ policy.maxRetries ∧ backoff ≠ [] then
        some (failedAt + minutes (backoff.getD (backoffIndex consecutiveFailures backoff.length) 0))
      else some (calculateNextRun env policy failedAt targetKey timezoneName none)

def isRetryScheduled (policy : SchedulePolicy) (consecutiveFailures : ℕ) : Bool :=
  policy.enabled && !policy.retryBackoffMinutes.isEmpty &&
    decide (0 < consecutiveFailures) && decide (consecutiveFailures ≤ policy.maxRetries)

def policyOf (env : Environment) (target : BackupTarget) : Option SchedulePolicy :=
  target.policyOverride.bind env.policies

def targetTimezoneName (env : Environment) (target : BackupTarget) : String :=
  match policyOf env target with
  | some policy =>
    if policy.siteTimeZone then (env.siteTimeZone target.deviceId).getD env.timeZoneSetting
    else env.timeZoneSetting
  | none => env.timeZoneSetting

/-- `target.pk or target.device_id`. -/
def targetKeyOf (target : BackupTarget) : ℕ := if target.pk ≠ 0 then target.pk else target.deviceId

def calculateTargetNextRun (env : Environment) (target : BackupTarget) (now : Instant) :
    Option Instant :=
  match policyOf env target with
  | none => none
  | some policy =>
    if !target.enabled || !policy.enabled then none
    else some (calculateNextRun env policy now (targetKeyOf target)
      (targetTimezoneName env target) none)

def applyTargetSchedule (env : Environment) (now : Instant) (target : BackupTarget) :
    BackupTarget :=
  { target with
    nextRunAt := calculateTargetNextRun env target now
    status :=
      if !target.enabled then .disabled
      else if target.status = .disabled then
        if target.consecutiveFailures ≠ 0 then .failed
        else if target.lastSuccessAt.isSome then .healthy else .never
      else target.status }

/-- The dispatcher's `failure_next_run`. -/
def failureNextRun (env : Environment) (target : BackupTarget) (failedAt : Instant)
    (failures : ℕ) : Option Instant :=
  calculateFailureNextRun env (policyOf env target) failedAt failures target.pk
    (targetTimezoneName env target)

/-- What the repository asks the scheduler for. -/
def Environment.scheduler (env : Environment) : Scheduler where
  calculateTargetNextRun := calculateTargetNextRun env
  failureNextRun := failureNextRun env

/-- Every entry of every backoff list is positive. -/
def PositiveBackoff (env : Environment) : Prop :=
  ∀ k policy, env.policies k = some policy → ∀ m ∈ policy.retryBackoffMinutes, 0 < m

theorem backoffIndex_lt {failures length : ℕ} (h : 0 < length) :
    backoffIndex failures length < length := by
  unfold backoffIndex
  split <;> omega

theorem lt_calculateTargetNextRun {env : Environment} {target : BackupTarget} {now next : Instant}
    (h : calculateTargetNextRun env target now = some next)
    (hslots : target.enabled = true → ∀ policy, policyOf env target = some policy →
      policy.enabled = true →
      SlotsAhead env policy (targetKeyOf target) (targetTimezoneName env target) now) :
    now < next := by
  unfold calculateTargetNextRun at h
  cases hpolicy : policyOf env target with
  | none => simp [hpolicy] at h
  | some policy =>
    rw [hpolicy] at h
    dsimp only at h
    split at h
    · simp at h
    · rename_i henabled
      simp only [Bool.or_eq_true, Bool.not_eq_eq_eq_not, Bool.not_true, not_or,
        Bool.not_eq_false] at henabled
      rw [← Option.some.inj h]
      exact lt_calculateNextRun now none (hslots henabled.1 policy hpolicy henabled.2)

/-- After a failure the next run is later than the failure: a retry by a
positive delay, and a regular run because its slot is ahead. -/
theorem lt_failureNextRun {env : Environment} {target : BackupTarget} {failedAt next : Instant}
    {failures : ℕ} (hbackoff : PositiveBackoff env)
    (h : failureNextRun env target failedAt failures = some next)
    (hslots : ∀ policy, policyOf env target = some policy → policy.enabled = true →
      ¬ (failures ≤ policy.maxRetries ∧ policy.retryBackoffMinutes ≠ []) →
      SlotsAhead env policy target.pk (targetTimezoneName env target) failedAt) :
    failedAt < next := by
  unfold failureNextRun calculateFailureNextRun at h
  cases hpolicy : policyOf env target with
  | none => simp [hpolicy] at h
  | some policy =>
    rw [hpolicy] at h
    dsimp only at h
    split at h
    · simp at h
    · rename_i henabled
      split at h
      · rename_i hretry
        have hlength := List.length_pos_iff.mpr hretry.2
        have hindex : backoffIndex failures policy.retryBackoffMinutes.length <
            policy.retryBackoffMinutes.length := backoffIndex_lt hlength
        rw [List.getD_eq_getElem _ 0 hindex, Option.some.injEq] at h
        obtain ⟨k, _, hk⟩ := Option.bind_eq_some_iff.mp hpolicy
        have hpos := minutes_pos (hbackoff k policy hk _ (List.getElem_mem hindex))
        rw [← h]
        exact Int.lt_add_of_pos_right failedAt hpos
      · rename_i hregular
        rw [← Option.some.inj h]
        exact lt_calculateNextRun failedAt none (hslots policy hpolicy (by simpa using henabled) hregular)

end ConfigBackup.Scheduling
