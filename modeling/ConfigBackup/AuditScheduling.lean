import ConfigBackup.GuardedRuns
import ConfigBackup.Scheduling
import Mathlib.Tactic.NormNum
import Mathlib.Tactic.Ring

/-!
The schedule of the remote integrity audits. The next audit is chosen by comparing readings of
the local clock, and is an instant again only in the end; where the clock was set back or
forward, the readings and the instants may disagree. The dispatcher stores the result and
queues an audit when its instant has come.
-/

namespace ConfigBackup.AuditScheduling

open Calendar GuardedRuns Scheduling

section Program

inductive Frequency
  | daily
  | weekly (weekday : ℕ)
deriving DecidableEq, Repr

/-- The audit columns of a destination; a time of day is less than a day. -/
structure AuditDestination where
  pk : ℕ
  enabled : Bool
  replicatedProtocol : Bool
  integrityAuditEnabled : Bool
  frequency : Frequency
  auditTime : Fin 86400000000
  nextIntegrityAuditAt : Option Instant
deriving DecidableEq, Repr

/-- `datetime.combine(date, destination.integrity_audit_time)`. -/
def slot (destination : AuditDestination) (d : Date) : WallTime :=
  days 1 * d + destination.auditTime.val

/-- `calculate_next_ftp_audit` for the reference `now`. -/
def calculateNextFtpAudit (zone : Zone) (destination : AuditDestination) (now : Instant) :
    Instant :=
  let localReference := zone.toLocal now
  let candidateDate := date localReference
  match destination.frequency with
  | .daily =>
    let candidate := slot destination candidateDate
    if candidate ≤ localReference then zone.toUtc (candidate + days 1)
    else zone.toUtc candidate
  | .weekly auditWeekday =>
    let daysAhead := ((auditWeekday : ℤ) - weekday candidateDate) % 7
    let candidate := slot destination (candidateDate + daysAhead)
    if candidate ≤ localReference then zone.toUtc (candidate + days 7)
    else zone.toUtc candidate

def active (destination : AuditDestination) : Bool :=
  destination.enabled && destination.integrityAuditEnabled && destination.replicatedProtocol

/-- `calculate_destination_next_ftp_audit`. -/
def calculateDestinationNextFtpAudit (zone : Zone) (destination : AuditDestination)
    (now : Instant) : Option Instant :=
  if active destination then some (calculateNextFtpAudit zone destination now) else none

/-- What happens to the transaction of a due destination. -/
inductive Fate
  | queued | alreadyActive | conflict
deriving DecidableEq, Repr

structure QueuedAudit where
  destination : ℕ
  scheduledFor : Instant
deriving DecidableEq, Repr

structure State where
  destinations : List AuditDestination
  queued : List QueuedAudit
  clock : Instant
deriving DecidableEq, Repr

/-- One row's part of `initialize_ftp_audit_schedules`. -/
def initializeDestination (zone : Zone) (now : Instant) (destination : AuditDestination) :
    AuditDestination :=
  if !active destination then { destination with nextIntegrityAuditAt := none }
  else if destination.nextIntegrityAuditAt.isNone then
    { destination with
      nextIntegrityAuditAt := calculateDestinationNextFtpAudit zone destination now }
  else destination

def due (now : Instant) (destination : AuditDestination) : Bool :=
  active destination && destination.nextIntegrityAuditAt.any fun next => decide (next ≤ now)

/-- The due destinations, those first that have waited longest. -/
def candidateIds (now : Instant) (limit : ℕ) (destinations : List AuditDestination) : List ℕ :=
  (((destinations.filter (due now)).insertionSort fun a b =>
    a.nextIntegrityAuditAt.getD 0 < b.nextIntegrityAuditAt.getD 0 ∨
      a.nextIntegrityAuditAt.getD 0 = b.nextIntegrityAuditAt.getD 0 ∧ a.pk ≤ b.pk).take
        limit).map fun d => d.pk

/-- Store the next audit of one destination. -/
def saveNext (destinations : List AuditDestination) (pk : ℕ) (next : Instant) :
    List AuditDestination :=
  destinations.map fun d => if d.pk = pk then { d with nextIntegrityAuditAt := some next } else d

/-- The transaction of one candidate; a conflict rolls it back. -/
def dispatchDestination (zone : Zone) (now : Instant) (fate : ℕ → Fate) (s : State) (pk : ℕ) :
    State :=
  match s.destinations.find? fun d => d.pk = pk with
  | none => s
  | some destination =>
    match destination.nextIntegrityAuditAt with
    | none => s
    | some scheduledFor =>
      if !active destination || decide (now < scheduledFor) then s
      else
        let saved := saveNext s.destinations pk (calculateNextFtpAudit zone destination now)
        match fate pk with
        | .conflict => s
        | .alreadyActive => { s with destinations := saved }
        | .queued => { s with
            destinations := saved
            queued := s.queued ++ [⟨pk, scheduledFor⟩] }

/-- One call of the dispatcher. -/
structure Dispatch where
  now : Instant
  limit : ℕ
  fate : ℕ → Fate

/-- `dispatch_due_ftp_audits`; no call reads an earlier time than the call before it. -/
def dispatchDueFtpAudits (zone : Zone) (s : State) (call : Dispatch) : Option State :=
  if call.now < s.clock then none
  else
    let initialized := s.destinations.map (initializeDestination zone call.now)
    some ((candidateIds call.now call.limit initialized).foldl
      (dispatchDestination zone call.now call.fate)
      { s with destinations := initialized, clock := call.now })

end Program

section Occurrences

/-- The audit takes place on the local date. -/
def Matches (destination : AuditDestination) (d : Date) : Prop :=
  match destination.frequency with
  | .daily => True
  | .weekly auditWeekday => weekday d = (auditWeekday : ℤ) % 7

/-- The instant of the audit on a local date. -/
def occurrence (zone : Zone) (destination : AuditDestination) (d : Date) : Instant :=
  zone.toUtc (slot destination d)

/-- The result is later than the reference, and no occurrence lies between them. -/
structure NextOccurrence (zone : Zone) (destination : AuditDestination) (now : Instant) :
    Prop where
  later : now < calculateNextFtpAudit zone destination now
  next : ∀ d, Matches destination d → ¬ (now < occurrence zone destination d ∧
    occurrence zone destination d < calculateNextFtpAudit zone destination now)

/-- The first date of an audit that the local clock has not reached yet. -/
def FirstAhead (zone : Zone) (destination : AuditDestination) (now : Instant) (d : Date) : Prop :=
  Matches destination d ∧ zone.toLocal now < slot destination d ∧
    ∀ e, Matches destination e → zone.toLocal now < slot destination e → d ≤ e

/-- The clock shows an earlier time, but the instant of the reading is over: the clock was set
back past it. -/
def SetBack (zone : Zone) (w : WallTime) (t : Instant) : Prop :=
  zone.toLocal t < w ∧ zone.toUtc w ≤ t

/-- The clock has reached the reading, but its instant is still to come: the clock was set
forward past it. -/
def SetForward (zone : Zone) (w : WallTime) (t : Instant) : Prop :=
  w ≤ zone.toLocal t ∧ t < zone.toUtc w

/-- The clock does not hide the next audit: it was not set back past it, and an audit that it
was set forward past, or one of a later date, does not come first. -/
structure ReadsTrue (zone : Zone) (destination : AuditDestination) (now : Instant) : Prop where
  notSetBack : ∀ d, FirstAhead zone destination now d → ¬ SetBack zone (slot destination d) now
  nothingSkipped : ∀ d e, FirstAhead zone destination now d → Matches destination e →
    SetForward zone (slot destination e) now →
      occurrence zone destination d ≤ occurrence zone destination e
  inOrder : ∀ d e, FirstAhead zone destination now d → Matches destination e → d < e →
    now < occurrence zone destination e →
      occurrence zone destination d ≤ occurrence zone destination e

variable {zone : Zone} {destination : AuditDestination} {now : Instant}

theorem slot_eq (d : Date) :
    slot destination d = 86400000000 * d + destination.auditTime.val := by
  unfold slot days microsecondsPerSecond
  norm_num

theorem date_eq (w : WallTime) : date w = w / 86400000000 := by
  unfold date microsecondsPerSecond
  norm_num

theorem lt_of_day_lt {w d : ℤ} (time : ℕ) (h : w / 86400000000 < d) :
    w < 86400000000 * d + time := by
  omega

theorem le_of_lt_day {w d : ℤ} {time : ℕ} (htime : time < 86400000000)
    (h : d < w / 86400000000) : 86400000000 * d + time ≤ w := by
  omega

theorem lt_slot {w : WallTime} {d : Date} (h : date w < d) : w < slot destination d := by
  rw [slot_eq]
  exact lt_of_day_lt _ (date_eq w ▸ h)

theorem slot_le {w : WallTime} {d : Date} (h : d < date w) : slot destination d ≤ w := by
  rw [slot_eq]
  exact le_of_lt_day destination.auditTime.isLt (date_eq w ▸ h)

theorem slot_add (d : Date) (n : ℕ) :
    slot destination d + days n = slot destination (d + n) := by
  unfold slot days
  push_cast
  ring

/-- The days to the next date with a given weekday. -/
theorem weekday_ahead {d auditWeekday k : ℤ} (h : (auditWeekday - (d + 3) % 7) % 7 = k) :
    (d + k + 3) % 7 = auditWeekday % 7 := by
  omega

theorem weekday_first {d e auditWeekday k : ℤ} (h : (auditWeekday - (d + 3) % 7) % 7 = k)
    (he : (e + 3) % 7 = auditWeekday % 7) (hle : d ≤ e) : d + k ≤ e := by
  omega

theorem weekday_second {d e auditWeekday : ℤ} (hd : (d + 3) % 7 = auditWeekday % 7)
    (he : (e + 3) % 7 = auditWeekday % 7) (hlt : d < e) : d + 7 ≤ e := by
  omega

/-- The result is the occurrence of the first audit ahead on the clock. -/
theorem exists_firstAhead (zone : Zone) (destination : AuditDestination) (now : Instant) :
    ∃ d, FirstAhead zone destination now d ∧
      calculateNextFtpAudit zone destination now = occurrence zone destination d := by
  unfold calculateNextFtpAudit FirstAhead
  -- an audit ahead on the clock is not of an earlier date
  have hdate : ∀ e, zone.toLocal now < slot destination e → date (zone.toLocal now) ≤ e := by
    intro e he
    by_contra hlt
    exact absurd (@slot_le destination _ _ (not_le.mp hlt)) (not_le.mpr he)
  generalize zone.toLocal now = clock at *
  cases hfrequency : destination.frequency with
  | daily =>
    have hmatches : ∀ d, Matches destination d := by
      intro d
      unfold Matches
      rw [hfrequency]
      trivial
    dsimp only
    by_cases hreached : slot destination (date clock) ≤ clock
    · rw [if_pos hreached]
      refine ⟨date clock + 1, ⟨hmatches _, lt_slot (Int.lt_succ _), fun e _ he => ?_⟩, ?_⟩
      · apply Int.add_one_le_of_lt
        apply lt_of_le_of_ne (hdate e he)
        rintro rfl
        exact absurd hreached (not_le.mpr he)
      · rw [slot_add]
        rfl
    · rw [if_neg hreached]
      exact ⟨date clock, ⟨hmatches _, not_le.mp hreached, fun e _ he => hdate e he⟩, rfl⟩
  | weekly auditWeekday =>
    have hmatches : ∀ d, Matches destination d ↔ (d + 3) % 7 = (auditWeekday : ℤ) % 7 := by
      intro d
      unfold Matches
      rw [hfrequency]
      exact Iff.rfl
    simp only [hmatches]
    generalize hahead : ((auditWeekday : ℤ) - weekday (date clock)) % 7 = daysAhead
    have hweekday := weekday_ahead hahead
    by_cases hreached : slot destination (date clock + daysAhead) ≤ clock
    · rw [if_pos hreached]
      have hnext : date clock < date clock + daysAhead + 7 := by
        have hnonneg : 0 ≤ daysAhead := hahead ▸ Int.emod_nonneg _ (by decide)
        exact Int.lt_of_lt_of_le (Int.lt_add_of_pos_right _ (by decide))
          (Int.add_le_add_right (Int.le_add_of_nonneg_right hnonneg) 7)
      refine ⟨date clock + daysAhead + 7, ⟨?_, lt_slot hnext, fun e hmatch he => ?_⟩, ?_⟩
      · rw [← hweekday, add_right_comm, Int.add_emod_right]
      · apply weekday_second hweekday hmatch
        apply lt_of_le_of_ne (weekday_first hahead hmatch (hdate e he))
        rintro rfl
        exact absurd hreached (not_le.mpr he)
      · rw [slot_add]
        rfl
    · rw [if_neg hreached]
      exact ⟨date clock + daysAhead, ⟨hweekday, not_le.mp hreached,
        fun e hmatch he => weekday_first hahead hmatch (hdate e he)⟩, rfl⟩

theorem FirstAhead.unique {d e : Date} (hd : FirstAhead zone destination now d)
    (he : FirstAhead zone destination now e) : d = e :=
  le_antisymm (hd.2.2 e he.1 he.2.1) (he.2.2 d hd.1 hd.2.1)

theorem later_of_notSetBack
    (h : ∀ d, FirstAhead zone destination now d → ¬ SetBack zone (slot destination d) now) :
    now < calculateNextFtpAudit zone destination now := by
  obtain ⟨d, hfirst, hresult⟩ := exists_firstAhead zone destination now
  rw [hresult]
  by_contra hover
  exact h d hfirst ⟨hfirst.2.1, not_lt.mp hover⟩

/-- The next occurrence is found exactly when the local clock reads true. -/
theorem nextOccurrence_iff_readsTrue (zone : Zone) (destination : AuditDestination)
    (now : Instant) :
    NextOccurrence zone destination now ↔ ReadsTrue zone destination now := by
  obtain ⟨d, hfirst, hresult⟩ := exists_firstAhead zone destination now
  constructor
  · rintro ⟨hlater, hnext⟩
    rw [hresult] at hlater hnext
    have hleast : ∀ e, Matches destination e → now < occurrence zone destination e →
        occurrence zone destination d ≤ occurrence zone destination e := fun e hmatch he =>
      not_lt.mp fun hlt => hnext e hmatch ⟨he, hlt⟩
    constructor
    · intro e he hback
      rw [he.unique hfirst] at hback
      exact absurd hlater (not_lt.mpr hback.2)
    · intro e f he hmatch hforward
      rw [he.unique hfirst]
      exact hleast f hmatch hforward.2
    · intro e f he hmatch _ hf
      rw [he.unique hfirst]
      exact hleast f hmatch hf
  · intro htrue
    constructor
    · exact later_of_notSetBack htrue.notSetBack
    · rintro e hmatch ⟨hlater, hbefore⟩
      rw [hresult] at hbefore
      apply absurd hbefore
      rw [not_lt]
      by_cases hreached : slot destination e ≤ zone.toLocal now
      · exact htrue.nothingSkipped d e hfirst hmatch ⟨hreached, hlater⟩
      · rcases lt_or_eq_of_le (hfirst.2.2 e hmatch (not_le.mp hreached)) with hlt | rfl
        · exact htrue.inOrder d e hfirst hmatch hlt hlater
        · exact le_refl _

end Occurrences

section Dispatching

variable {zone : Zone} {s s' : State} {now : Instant}

/-- At a call the clock was not set back past the next audit of any active destination. -/
def NotSetBack (zone : Zone) (s : State) (call : Dispatch) : Prop :=
  ∀ destination ∈ s.destinations, active destination = true → ∀ d,
    FirstAhead zone destination call.now d → ¬ SetBack zone (slot destination d) call.now

/-- What is queued has passed, and is earlier than what its destination waits for. -/
structure Inv (s : State) : Prop where
  nodup : s.queued.Nodup
  past : ∀ q ∈ s.queued, q.scheduledFor ≤ s.clock
  before : ∀ q ∈ s.queued, ∀ destination ∈ s.destinations, destination.pk = q.destination →
    ∀ next, destination.nextIntegrityAuditAt = some next → q.scheduledFor < next

/-- Every active destination that is given a next audit gets a later one. -/
def Advances (zone : Zone) (s : State) : Prop :=
  ∀ destination ∈ s.destinations, active destination = true →
    s.clock < calculateNextFtpAudit zone destination s.clock

theorem inv_fresh (h : s.queued = []) : Inv s where
  nodup := h ▸ List.nodup_nil
  past q hq := by
    rw [h] at hq
    cases hq
  before q hq := by
    rw [h] at hq
    cases hq

/-- The first part of a call gives later audits only to those that wait for none. -/
theorem initialized_spec (hinv : Inv s) (hclock : s.clock ≤ now)
    (hlater : ∀ destination ∈ s.destinations, active destination = true →
      now < calculateNextFtpAudit zone destination now) :
    Inv { s with destinations := s.destinations.map (initializeDestination zone now)
                 clock := now } ∧
      Advances zone { s with destinations := s.destinations.map (initializeDestination zone now)
                             clock := now } := by
  have hcases : ∀ destination, initializeDestination zone now destination = destination ∨
      (initializeDestination zone now destination = { destination with
        nextIntegrityAuditAt := none }) ∨
      active destination = true ∧ initializeDestination zone now destination =
        { destination with
          nextIntegrityAuditAt := some (calculateNextFtpAudit zone destination now) } := by
    intro destination
    unfold initializeDestination
    cases hactive : active destination with
    | false => exact Or.inr (Or.inl rfl)
    | true =>
      rw [if_neg (by decide)]
      split
      · right
        right
        unfold calculateDestinationNextFtpAudit
        rw [if_pos hactive]
        exact ⟨rfl, rfl⟩
      · exact Or.inl rfl
  constructor
  · refine ⟨hinv.nodup, fun q hq => le_trans (hinv.past q hq) hclock, ?_⟩
    intro q hq destination hdestination hpk next hnext
    obtain ⟨old, hold, rfl⟩ := List.mem_map.mp hdestination
    rcases hcases old with hsame | hnone | ⟨hactive, hset⟩
    · rw [hsame] at hpk hnext
      exact hinv.before q hq old hold hpk next hnext
    · rw [hnone] at hnext
      cases hnext
    · rw [hset] at hnext
      rw [← Option.some.inj hnext]
      exact lt_of_le_of_lt (le_trans (hinv.past q hq) hclock) (hlater old hold hactive)
  · intro destination hdestination hactive
    obtain ⟨old, hold, rfl⟩ := List.mem_map.mp hdestination
    rcases hcases old with hsame | hnone | ⟨-, hset⟩
    · rw [hsame] at hactive ⊢
      exact hlater old hold hactive
    · rw [hnone] at hactive ⊢
      exact hlater old hold hactive
    · rw [hset] at hactive ⊢
      exact hlater old hold hactive

theorem mem_saveNext {destinations : List AuditDestination} {pk : ℕ} {next : Instant}
    {destination : AuditDestination} (h : destination ∈ saveNext destinations pk next) :
    destination ∈ destinations ∧ destination.pk ≠ pk ∨ ∃ old ∈ destinations, old.pk = pk ∧
      destination = { old with nextIntegrityAuditAt := some next } := by
  obtain ⟨old, hold, hsaved⟩ := List.mem_map.mp h
  by_cases hpk : old.pk = pk
  · rw [if_pos hpk] at hsaved
    exact Or.inr ⟨old, hold, hpk, hsaved.symm⟩
  · rw [if_neg hpk] at hsaved
    exact Or.inl ⟨hsaved ▸ hold, hsaved ▸ hpk⟩

/-- Storing a later audit keeps what is queued before what is waited for. -/
theorem inv_saveNext (hinv : Inv s) (pk : ℕ) {next : Instant} (hnext : s.clock < next) :
    Inv { s with destinations := saveNext s.destinations pk next } := by
  refine ⟨hinv.nodup, hinv.past, ?_⟩
  intro q hq destination hdestination hpk later hlater
  rcases mem_saveNext hdestination with ⟨hold, -⟩ | ⟨old, hold, holdpk, rfl⟩
  · exact hinv.before q hq destination hold hpk later hlater
  · rw [← Option.some.inj hlater]
    exact lt_of_le_of_lt (hinv.past q hq) hnext

theorem advances_saveNext (hadvances : Advances zone s) (pk : ℕ) (next : Instant) :
    Advances zone { s with destinations := saveNext s.destinations pk next } := by
  intro destination hdestination hactive
  rcases mem_saveNext hdestination with ⟨hold, -⟩ | ⟨old, hold, -, rfl⟩
  · exact hadvances destination hold hactive
  · exact hadvances old hold hactive

theorem dispatchDestination_spec (hinv : Inv s) (hadvances : Advances zone s) (fate : ℕ → Fate)
    (pk : ℕ) :
    Inv (dispatchDestination zone s.clock fate s pk) ∧
      Advances zone (dispatchDestination zone s.clock fate s pk) ∧
      (dispatchDestination zone s.clock fate s pk).clock = s.clock := by
  unfold dispatchDestination
  split
  · exact ⟨hinv, hadvances, rfl⟩
  rename_i destination hfound
  have hmem : destination ∈ s.destinations := List.mem_of_find?_eq_some hfound
  have hpk : destination.pk = pk := by simpa using List.find?_some hfound
  split
  · exact ⟨hinv, hadvances, rfl⟩
  rename_i scheduledFor hscheduled
  split
  · exact ⟨hinv, hadvances, rfl⟩
  rename_i hdue
  simp only [Bool.or_eq_true, not_or, Bool.not_eq_true, Bool.not_eq_false', decide_eq_false_iff_not,
    not_lt] at hdue
  have hlater := hadvances destination hmem hdue.1
  have hsaved := inv_saveNext hinv pk hlater
  dsimp only
  split
  · exact ⟨hinv, hadvances, rfl⟩
  · exact ⟨hsaved, advances_saveNext hadvances pk _, rfl⟩
  · refine ⟨⟨?_, ?_, ?_⟩, advances_saveNext hadvances pk _, rfl⟩
    · -- the destination waits for a later audit than it was queued for before
      refine List.nodup_append.mpr ⟨hinv.nodup, List.nodup_singleton _, ?_⟩
      rintro q hq other hother rfl
      rw [List.mem_singleton.mp hother] at hq
      exact lt_irrefl _ (hinv.before _ hq destination hmem hpk scheduledFor hscheduled)
    · intro q hq
      rcases List.mem_append.mp hq with hq | hq
      · exact hinv.past q hq
      · rw [List.mem_singleton.mp hq]
        exact hdue.2
    · intro q hq other hother hotherpk next hnext
      rcases List.mem_append.mp hq with hq | hq
      · exact hsaved.before q hq other hother hotherpk next hnext
      · rw [List.mem_singleton.mp hq] at hotherpk ⊢
        rcases mem_saveNext hother with ⟨-, hne⟩ | ⟨old, -, -, rfl⟩
        · exact absurd hotherpk hne
        · rw [← Option.some.inj hnext]
          exact lt_of_le_of_lt hdue.2 hlater

theorem inv_foldl (hinv : Inv s) (hadvances : Advances zone s) (fate : ℕ → Fate)
    (ids : List ℕ) : Inv (ids.foldl (dispatchDestination zone s.clock fate) s) := by
  induction ids generalizing s with
  | nil => exact hinv
  | cons pk ids ih =>
    obtain ⟨hinv', hadvances', hclock⟩ := dispatchDestination_spec hinv hadvances fate pk
    have hrest := ih hinv' hadvances'
    rw [hclock] at hrest
    exact hrest

theorem inv_step {call : Dispatch} (hinv : Inv s) (hguard : NotSetBack zone s call)
    (h : dispatchDueFtpAudits zone s call = some s') : Inv s' := by
  unfold dispatchDueFtpAudits at h
  split at h
  · cases h
  · rename_i hclock
    rw [← Option.some.inj h]
    obtain ⟨hinv', hadvances⟩ := initialized_spec hinv (not_lt.mp hclock)
      fun destination hmem hactive => later_of_notSetBack (hguard destination hmem hactive)
    exact inv_foldl hinv' hadvances call.fate _

/-- The next audit is found exactly when the local clock reads true, and as long as the clock
is never found set back past a next audit, no audit is queued twice. -/
theorem audits_on_time (zone : Zone) :
    (∀ destination now, NextOccurrence zone destination now ↔ ReadsTrue zone destination now) ∧
      ∀ s s' calls, s.queued = [] → Guarded (dispatchDueFtpAudits zone) (NotSetBack zone) s calls →
        exec (dispatchDueFtpAudits zone) s calls = some s' → s'.queued.Nodup := by
  constructor
  · exact nextOccurrence_iff_readsTrue zone
  · intro s s' calls hfresh hguarded hrun
    exact (invariant_of_step Inv (fun _ _ _ hinv hguard hstep => inv_step hinv hguard hstep)
      (inv_fresh hfresh) hguarded hrun).nodup

end Dispatching

section Examples

theorem not_setBack_utc (w : WallTime) (t : Instant) : ¬ SetBack Zone.utc w t := by
  rintro ⟨hclock, hover⟩
  have hlocal : Zone.utc.toLocal t = t := by
    simp [Zone.toLocal, Zone.utc, Zone.ofChange]
  have hutc : Zone.utc.toUtc w = w := by
    simp [Zone.toUtc, Zone.utc, Zone.ofChange]
  rw [hlocal] at hclock
  rw [hutc] at hover
  exact absurd hclock (not_lt.mpr hover)

/-- A destination that is audited daily at half past one. -/
def dailyDestination (next : Option Instant) : AuditDestination :=
  { pk := 1, enabled := true, replicatedProtocol := true, integrityAuditEnabled := true
    frequency := .daily, auditTime := 5400000000, nextIntegrityAuditAt := next }

def queueing (now : Instant) : Dispatch := { now := now, limit := 25, fate := fun _ => .queued }

theorem audits_on_time_utc :
    ∃ s', exec (dispatchDueFtpAudits Zone.utc) ⟨[dailyDestination none], [], 0⟩
      [queueing 0, queueing 6000000000] = some s' ∧ s'.queued.Nodup := by
  have hruns : (exec (dispatchDueFtpAudits Zone.utc) ⟨[dailyDestination none], [], 0⟩
      [queueing 0, queueing 6000000000]).isSome = true := by
    decide +kernel
  obtain ⟨s', hrun⟩ := Option.isSome_iff_exists.mp hruns
  refine ⟨s', hrun, (audits_on_time Zone.utc).2 _ s' _ rfl ?_ hrun⟩
  exact guarded_of_forall fun call _ s destination _ _ d _ => not_setBack_utc _ _

/-- The clock goes back from two o'clock to one at instant 0. -/
def autumn : Zone := Zone.ofChange 0 7200000000 3600000000

/-- In the repeated hour the next audit of half past one is the one that is over, and two calls
queue it twice. -/
theorem audits_counterexample :
    (¬ ∀ (zone : Zone) (destination : AuditDestination) (now : Instant),
      NextOccurrence zone destination now) ∧
    ¬ ∀ (zone : Zone) (s s' : State) (calls : List Dispatch), s.queued = [] →
      exec (dispatchDueFtpAudits zone) s calls = some s' → s'.queued.Nodup := by
  constructor
  · intro hall
    have hlater := (hall autumn (dailyDestination none) 900000000).later
    exact absurd hlater (by decide +kernel)
  · intro hall
    have hruns : (exec (dispatchDueFtpAudits autumn)
        ⟨[dailyDestination (some (-1800000000))], [], 0⟩
        [queueing 900000000, queueing 960000000]).map State.queued =
        some [⟨1, -1800000000⟩, ⟨1, -1800000000⟩] := by
      decide +kernel
    obtain ⟨s', hrun, hqueued⟩ := Option.map_eq_some_iff.mp hruns
    have hnodup := hall autumn _ s' _ rfl hrun
    rw [hqueued] at hnodup
    exact absurd hnodup (by decide)

end Examples

end ConfigBackup.AuditScheduling
