import ConfigBackup.AuditScheduling

/-!
The next regular run is the least slot after the reference. The slots of an interval schedule
are whole multiples of the interval away; those of a daily schedule are the local times of all
dates with their jitter. For a daily schedule only the slots of two dates are looked at, by
their readings on the local clock.
-/

namespace ConfigBackup.NextRuns

open AuditScheduling Calendar Scheduling

section Slots

variable (env : Environment) (policy : SchedulePolicy) (targetKey : ℕ) (timezoneName : String)

/-- The instant of the daily slot of one local date. -/
def dailySlot (timeOfDay : ℕ) (d : Date) : Instant :=
  (zoneOf env timezoneName).toUtc (dailyCandidate env policy timeOfDay d targetKey)

/-- The slots of a schedule. -/
def IsSlot (after t : Instant) : Prop :=
  match policy.schedule with
  | .interval intervalMinutes _ => ∃ k : ℕ, 0 < k ∧ t = after + k * minutes intervalMinutes
  | .daily timeOfDay => ∃ d, t = dailySlot env policy targetKey timezoneName timeOfDay d

/-- The result is the least slot after the reference. -/
structure NextSlot (after : Instant) (now : Option Instant) : Prop where
  later : now.getD after < calculateNextRun env policy after targetKey timezoneName now
  slot : IsSlot env policy targetKey timezoneName after
    (calculateNextRun env policy after targetKey timezoneName now)
  least : ∀ t, IsSlot env policy targetKey timezoneName after t → now.getD after < t →
    calculateNextRun env policy after targetKey timezoneName now ≤ t

/-- The local date at the reference. -/
def today (reference : Instant) : Date := date ((zoneOf env timezoneName).toLocal reference)

/-- Today, or tomorrow when the clock has reached today's slot. -/
def candidateDate (timeOfDay : ℕ) (reference : Instant) : Date :=
  if dailyCandidate env policy timeOfDay (today env timezoneName reference) targetKey ≤
      (zoneOf env timezoneName).toLocal reference then today env timezoneName reference + 1
  else today env timezoneName reference

/-- Neither the clock nor the jitter hides the next daily slot. -/
structure Undisturbed (timeOfDay : ℕ) (reference : Instant) : Prop where
  /-- The clock was not set back past the slot. -/
  notSetBack : ¬ SetBack (zoneOf env timezoneName) (dailyCandidate env policy timeOfDay
    (candidateDate env policy targetKey timezoneName timeOfDay reference) targetKey) reference
  /-- No slot of an earlier date was carried past midnight and comes first. -/
  nothingCarriedOver : ∀ d < today env timezoneName reference,
    reference < dailySlot env policy targetKey timezoneName timeOfDay d →
      dailySlot env policy targetKey timezoneName timeOfDay
        (candidateDate env policy targetKey timezoneName timeOfDay reference) ≤
          dailySlot env policy targetKey timezoneName timeOfDay d
  /-- The clock was not set forward past today's slot. -/
  nothingSkipped : SetForward (zoneOf env timezoneName) (dailyCandidate env policy timeOfDay
    (today env timezoneName reference) targetKey) reference →
      dailySlot env policy targetKey timezoneName timeOfDay
        (candidateDate env policy targetKey timezoneName timeOfDay reference) ≤
          dailySlot env policy targetKey timezoneName timeOfDay (today env timezoneName reference)
  /-- No slot of a later date comes first. -/
  inOrder : ∀ d, candidateDate env policy targetKey timezoneName timeOfDay reference < d →
    reference < dailySlot env policy targetKey timezoneName timeOfDay d →
      dailySlot env policy targetKey timezoneName timeOfDay
        (candidateDate env policy targetKey timezoneName timeOfDay reference) ≤
          dailySlot env policy targetKey timezoneName timeOfDay d

/-- The condition on a schedule; an interval schedule needs none. -/
def FindsNext (reference : Instant) : Prop :=
  match policy.schedule with
  | .interval _ _ => True
  | .daily timeOfDay => Undisturbed env policy targetKey timezoneName timeOfDay reference

end Slots

section Interval

/-- The first multiple after the missed ones is the least that is later. -/
theorem interval_least {candidate reference interval : ℤ} (hinterval : 0 < interval) {k : ℤ}
    (hlater : reference < candidate + k * interval) :
    candidate + ((reference - candidate) / interval + 1) * interval ≤ candidate + k * interval := by
  apply Int.add_le_add_left
  apply Int.mul_le_mul_of_nonneg_right _ hinterval.le
  apply Int.add_one_le_of_lt
  apply Int.ediv_lt_of_lt_mul hinterval
  omega

theorem interval_slot {after reference interval : ℤ} (hinterval : 0 < interval)
    (hmissed : after + interval ≤ reference) :
    ∃ k : ℕ, 0 < k ∧ after + interval + ((reference - (after + interval)) / interval + 1) *
      interval = after + k * interval := by
  have hnonneg : 0 ≤ (reference - (after + interval)) / interval :=
    Int.ediv_nonneg (by omega) hinterval.le
  obtain ⟨n, hn⟩ := Int.eq_ofNat_of_zero_le hnonneg
  refine ⟨n + 2, by omega, ?_⟩
  rw [hn]
  push_cast
  ring

theorem interval_first {after interval : ℤ} (hinterval : 0 < interval) {k : ℕ} (hk : 0 < k) :
    after + interval ≤ after + k * interval := by
  have hone : (1 : ℤ) ≤ k := by omega
  have hmul := Int.mul_le_mul_of_nonneg_right hone hinterval.le
  rw [Int.one_mul] at hmul
  omega

theorem multiple_shift (after interval : ℤ) (k : ℕ) :
    after + k * interval = after + interval + ((k : ℤ) - 1) * interval := by
  ring

variable {env : Environment} {policy : SchedulePolicy} {targetKey : ℕ} {timezoneName : String}

/-- An interval schedule always finds its next slot. -/
theorem nextSlot_interval {intervalMinutes : ℕ} {positive : 0 < intervalMinutes}
    (h : policy.schedule = .interval intervalMinutes positive) (after : Instant)
    (now : Option Instant) : NextSlot env policy targetKey timezoneName after now := by
  have hinterval := minutes_pos positive
  have hresult : calculateNextRun env policy after targetKey timezoneName now =
      if after + minutes intervalMinutes ≤ now.getD after then
        after + minutes intervalMinutes + ((now.getD after - (after + minutes intervalMinutes)) /
          minutes intervalMinutes + 1) * minutes intervalMinutes
      else after + minutes intervalMinutes := by
    unfold calculateNextRun
    rw [h]
  have hslot : ∀ t, IsSlot env policy targetKey timezoneName after t ↔
      ∃ k : ℕ, 0 < k ∧ t = after + k * minutes intervalMinutes := by
    intro t
    unfold IsSlot
    rw [h]
  by_cases hmissed : after + minutes intervalMinutes ≤ now.getD after
  · rw [if_pos hmissed] at hresult
    constructor
    · rw [hresult]
      exact lt_next_interval hinterval
    · rw [hresult]
      exact (hslot _).mpr (interval_slot hinterval hmissed)
    · intro t ht hlater
      obtain ⟨k, -, rfl⟩ := (hslot t).mp ht
      rw [hresult, multiple_shift]
      rw [multiple_shift] at hlater
      exact interval_least hinterval hlater
  · rw [if_neg hmissed] at hresult
    constructor
    · rw [hresult]
      exact not_le.mp hmissed
    · rw [hresult]
      refine (hslot _).mpr ⟨1, by decide, ?_⟩
      rw [Nat.cast_one, Int.one_mul]
    · intro t ht _
      obtain ⟨k, hk, rfl⟩ := (hslot t).mp ht
      rw [hresult]
      exact interval_first hinterval hk

end Interval

section Daily

variable {env : Environment} {policy : SchedulePolicy} {targetKey : ℕ} {timezoneName : String}

theorem calculateNextRun_daily {timeOfDay : ℕ} (h : policy.schedule = .daily timeOfDay)
    (after : Instant) (now : Option Instant) :
    calculateNextRun env policy after targetKey timezoneName now =
      dailySlot env policy targetKey timezoneName timeOfDay
        (candidateDate env policy targetKey timezoneName timeOfDay (now.getD after)) := by
  unfold calculateNextRun dailySlot candidateDate today
  rw [h]
  dsimp only
  split
  · rfl
  · rfl

/-- The chosen slot is ahead on the local clock. -/
theorem lt_candidate (timeOfDay : ℕ) (reference : Instant) :
    (zoneOf env timezoneName).toLocal reference < dailyCandidate env policy timeOfDay
      (candidateDate env policy targetKey timezoneName timeOfDay reference) targetKey := by
  unfold candidateDate
  split
  · exact lt_dailyCandidate_next env policy timeOfDay _ targetKey
  · rename_i hahead
    exact not_le.mp hahead

/-- The chosen date is today, unless the clock has reached today's slot. -/
theorem candidateDate_cases (timeOfDay : ℕ) (reference : Instant) :
    candidateDate env policy targetKey timezoneName timeOfDay reference =
        today env timezoneName reference ∨
      candidateDate env policy targetKey timezoneName timeOfDay reference =
          today env timezoneName reference + 1 ∧
        dailyCandidate env policy timeOfDay (today env timezoneName reference) targetKey ≤
          (zoneOf env timezoneName).toLocal reference := by
  unfold candidateDate
  split
  · rename_i hreached
    exact Or.inr ⟨rfl, hreached⟩
  · exact Or.inl rfl

/-- A daily schedule finds its next slot exactly when it is undisturbed. -/
theorem nextSlot_daily {timeOfDay : ℕ} (h : policy.schedule = .daily timeOfDay) (after : Instant)
    (now : Option Instant) :
    NextSlot env policy targetKey timezoneName after now ↔
      Undisturbed env policy targetKey timezoneName timeOfDay (now.getD after) := by
  have hresult := @calculateNextRun_daily env policy targetKey timezoneName _ h after now
  have hslot : ∀ t, IsSlot env policy targetKey timezoneName after t ↔
      ∃ d, t = dailySlot env policy targetKey timezoneName timeOfDay d := by
    intro t
    unfold IsSlot
    rw [h]
  constructor
  · rintro ⟨hlater, -, hleast⟩
    rw [hresult] at hlater hleast
    have hfirst : ∀ d, now.getD after < dailySlot env policy targetKey timezoneName timeOfDay d →
        dailySlot env policy targetKey timezoneName timeOfDay
          (candidateDate env policy targetKey timezoneName timeOfDay (now.getD after)) ≤
            dailySlot env policy targetKey timezoneName timeOfDay d := fun d hd =>
      hleast _ ((hslot _).mpr ⟨d, rfl⟩) hd
    constructor
    · intro hback
      exact absurd hlater (not_lt.mpr hback.2)
    · exact fun d _ hd => hfirst d hd
    · exact fun hforward => hfirst _ hforward.2
    · exact fun d _ hd => hfirst d hd
  · intro hundisturbed
    constructor
    · rw [hresult]
      by_contra hover
      exact hundisturbed.notSetBack ⟨lt_candidate timeOfDay _, not_lt.mp hover⟩
    · rw [hresult]
      exact (hslot _).mpr ⟨_, rfl⟩
    · intro t ht hlater
      obtain ⟨d, rfl⟩ := (hslot t).mp ht
      rw [hresult]
      rcases lt_trichotomy d (today env timezoneName (now.getD after)) with hbefore | rfl | hlate
      · exact hundisturbed.nothingCarriedOver d hbefore hlater
      · rcases candidateDate_cases timeOfDay (now.getD after) with htoday | ⟨-, hreached⟩
        · rw [htoday]
        · exact hundisturbed.nothingSkipped ⟨hreached, hlater⟩
      · have hle : candidateDate env policy targetKey timezoneName timeOfDay (now.getD after) ≤
            d := by
          rcases candidateDate_cases timeOfDay (now.getD after) with htoday | ⟨htomorrow, -⟩
          · rw [htoday]
            exact hlate.le
          · rw [htomorrow]
            exact Int.add_one_le_of_lt hlate
        rcases lt_or_eq_of_le hle with hlt | heq
        · exact hundisturbed.inOrder d hlt hlater
        · rw [heq]

end Daily

section Schedules

/-- A policy that runs at ten to midnight, with twenty minutes of jitter on every date. -/
def latePolicy : SchedulePolicy where
  pk := 1
  enabled := true
  schedule := .daily 85800000000
  siteTimeZone := false
  jitterMinutes := 30
  maxRetries := 0
  retryBackoffMinutes := []

def lateEnvironment : Environment where
  policies _ := some latePolicy
  siteTimeZone _ := none
  timeZoneSetting := "UTC"
  zones _ := none
  digest _ := 20

end Schedules

end ConfigBackup.NextRuns
