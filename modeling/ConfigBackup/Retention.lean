import ConfigBackup.Models
import ConfigBackup.NewestFirst

/-!
The retention planner. Settings come from a local or a remote retention
profile; the plan lists one decision for every revision and run candidate,
newest first, with the reasons shown in the retention preview. A window that
reaches before year 1 raises in the date arithmetic, written here as `none`.
-/

namespace ConfigBackup.Retention

open Calendar Models NewestFirst

def activeRunStatuses : List String := ["queued", "running"]

def unchangedRunStatuses : List String := ["success_unchanged"]

def changedRunStatuses : List String := ["success_changed"]

def failedRunStatuses : List String := ["partial", "failed", "errored", "skipped"]

def knownRunStatuses : List String :=
  activeRunStatuses ++ unchangedRunStatuses ++ changedRunStatuses ++ failedRunStatuses

structure RetentionSettings where
  keepAllDays : ℕ
  dailyDays : ℕ
  weeklyWeeks : ℕ
  monthlyMonths : ℕ
  minimumChangedRevisions : ℕ
  unchangedRunDays : ℕ
  changedRunDays : ℕ
  failedRunDays : ℕ
  maxRunsPerTarget : ℕ
  maxRevisionsPerTarget : Option ℕ
deriving DecidableEq, Repr

structure RevisionCandidate where
  objectId : ℕ
  created : Instant
  isProtected : Bool
  contentChanged : Bool
deriving DecidableEq, Repr

structure RunCandidate where
  objectId : ℕ
  timestamp : Instant
  status : String
deriving DecidableEq, Repr

structure RetentionDecision where
  objectId : ℕ
  timestamp : Instant
  keep : Bool
  reasons : List String
deriving DecidableEq, Repr

structure RetentionPlan where
  generatedAt : Instant
  revisionDecisions : List RetentionDecision
  runDecisions : List RetentionDecision
deriving DecidableEq, Repr

def settingsFromPolicy (policy : RetentionPolicy) : RetentionSettings where
  keepAllDays := policy.keepAllDays
  dailyDays := policy.dailyDays
  weeklyWeeks := policy.weeklyWeeks
  monthlyMonths := policy.monthlyMonths
  minimumChangedRevisions := policy.minimumChangedRevisions
  unchangedRunDays := policy.unchangedRunDays
  changedRunDays := policy.changedRunDays
  failedRunDays := policy.failedRunDays
  maxRunsPerTarget := policy.maxRunsPerTarget
  maxRevisionsPerTarget := none

def settingsFromRemotePolicy (policy : RemoteRetentionPolicy) : RetentionSettings where
  keepAllDays := policy.keepAllDays
  dailyDays := policy.dailyDays
  weeklyWeeks := policy.weeklyWeeks
  monthlyMonths := policy.monthlyMonths
  minimumChangedRevisions := policy.minimumChangedRevisions
  unchangedRunDays := 0
  changedRunDays := 0
  failedRunDays := 0
  maxRunsPerTarget := 1
  maxRevisionsPerTarget := policy.maxCopiesPerTarget

/-- A foreign key is true when it is set; key 0 is never issued. -/
def truthy (pk : Option ℕ) : Bool := pk.any (fun k => k != 0)

/-- Key of the local profile in force; the policy row is dereferenced. -/
def effectiveLocalRetentionPolicyId (db : Database) (target : BackupTarget)
    (storage : BackupDestination) : Option ℕ :=
  if storage.enforceRetentionPolicy && truthy storage.localRetentionPolicy then
    storage.localRetentionPolicy
  else if truthy target.retentionOverride then target.retentionOverride
  else if truthy target.policyOverride then
    (target.policyOverride.bind db.backupPolicies.get?).map (fun p => p.retentionPolicy)
  else if truthy storage.localRetentionPolicy then storage.localRetentionPolicy
  else none

def effectiveRemoteRetentionPolicyId (target : BackupTarget) (destination : BackupDestination) :
    Option ℕ :=
  if destination.enforceRetentionPolicy && truthy destination.remoteRetentionPolicy then
    destination.remoteRetentionPolicy
  else if truthy target.remoteRetentionPolicy then target.remoteRetentionPolicy
  else destination.remoteRetentionPolicy

/-- Newer candidates sort first: later creation, then greater object id. -/
abbrev RevisionCandidate.newer : RevisionCandidate → RevisionCandidate → Prop :=
  newerBy RevisionCandidate.created RevisionCandidate.objectId

abbrev RunCandidate.newer : RunCandidate → RunCandidate → Prop :=
  newerBy RunCandidate.timestamp RunCandidate.objectId

def withinExactDays (timestamp now : Instant) (n : ℕ) : Option Bool :=
  if n = 0 then some false
  else (daysBefore now n).map (fun cutoff => decide (cutoff ≤ timestamp))

def withinDays (timestamp now : Instant) (n : ℕ) : Bool :=
  if n = 0 then false
  else decide (0 ≤ date now - date timestamp ∧ date now - date timestamp < n)

def withinWeeks (timestamp now : Instant) (weeks : ℕ) : Bool :=
  if weeks = 0 then false
  else
    let age := weekStart (date now) - weekStart (date timestamp)
    decide (0 ≤ age ∧ age < weeks * 7)

def withinMonths (timestamp now : Instant) (months : ℕ) : Bool :=
  if months = 0 then false
  else
    let age := (year (date now) - year (date timestamp)) * 12 + month (date now)
      - month (date timestamp)
    decide (0 ≤ age ∧ age < months)

/-- The reasons noted so far for every object id. -/
abbrev Reasons := ℕ → List String

def Reasons.append (reasons : Reasons) (objectId : ℕ) (reason : String) : Reasons :=
  fun k => if k = objectId then reasons k ++ [reason] else reasons k

def markEach (reasons : Reasons) (reason : String) (items : List RevisionCandidate) : Reasons :=
  items.foldl (fun acc item => acc.append item.objectId reason) reasons

def markLatestPerBucket {κ : Type} [DecidableEq κ] (ordered : List RevisionCandidate)
    (reasons : Reasons) (reason : String) (eligible : RevisionCandidate → Bool)
    (bucket : RevisionCandidate → κ) : Reasons :=
  markEach reasons reason (firstPerBucket eligible bucket [] ordered)

/-- Every reason to keep a revision, from the revisions newest first. -/
def revisionReasons (settings : RetentionSettings) (ordered : List RevisionCandidate)
    (keepAllCutoff now : Instant) : Reasons :=
  let reasons := markEach (fun _ => []) "Latest revision" (ordered.take 1)
  let reasons := markEach reasons "Protected revision" (ordered.filter (fun r => r.isProtected))
  let changed := ordered.filter (fun r => r.contentChanged)
  let reasons := markEach reasons "Minimum changed revisions"
    (changed.take settings.minimumChangedRevisions)
  let reasons :=
    if settings.keepAllDays = 0 then reasons
    else markEach reasons "Recent revision"
      (ordered.filter (fun r => decide (keepAllCutoff ≤ r.created)))
  let reasons := markLatestPerBucket ordered reasons "Daily sample"
    (fun r => withinDays r.created now settings.dailyDays) (fun r => date r.created)
  let reasons := markLatestPerBucket ordered reasons "Weekly sample"
    (fun r => withinWeeks r.created now settings.weeklyWeeks) (fun r => isoWeek (date r.created))
  markLatestPerBucket ordered reasons "Monthly sample"
    (fun r => withinMonths r.created now settings.monthlyMonths)
    (fun r => (year (date r.created), month (date r.created)))

def revisionDecision (reasons : Reasons) (revision : RevisionCandidate) : RetentionDecision where
  objectId := revision.objectId
  timestamp := revision.created
  keep := !(reasons revision.objectId).isEmpty
  reasons :=
    if (reasons revision.objectId).isEmpty then ["Outside retention windows"]
    else reasons revision.objectId

/-- The newest and the protected revisions, which the cap never removes. -/
def mandatoryDecision (decision : RetentionDecision) : Bool :=
  decision.reasons.contains "Latest revision" || decision.reasons.contains "Protected revision"

/-- Keep the mandatory decisions and the first `remaining` of the other kept ones. -/
def capDecisions (mandatory : List ℕ) : ℕ → List RetentionDecision → List RetentionDecision
  | _, [] => []
  | remaining, decision :: rest =>
    if !decision.keep || mandatory.contains decision.objectId then
      decision :: capDecisions mandatory remaining rest
    else if remaining ≠ 0 then decision :: capDecisions mandatory (remaining - 1) rest
    else
      { objectId := decision.objectId, timestamp := decision.timestamp, keep := false
        reasons := ["Per-target revision limit exceeded"] } :: capDecisions mandatory remaining rest

def planRevisions (settings : RetentionSettings) (revisions : List RevisionCandidate)
    (now : Instant) : Option (List RetentionDecision) := do
  let ordered := newestFirst RevisionCandidate.newer revisions
  let keepAllCutoff ← daysBefore now settings.keepAllDays
  let reasons := revisionReasons settings ordered keepAllCutoff now
  let decisions := ordered.map (revisionDecision reasons)
  match settings.maxRevisionsPerTarget with
  | none | some 0 => pure decisions
  | some limit =>
    let mandatory := ((decisions.filter mandatoryDecision).map (fun d => d.objectId)).dedup
    pure (capDecisions mandatory (limit - mandatory.length) decisions)

/-- Whether the run's own retention window keeps it, and why. -/
def runRetention (settings : RetentionSettings) (now : Instant) (run : RunCandidate) :
    Option (Bool × String) :=
  if run.status ∈ activeRunStatuses then some (true, "Active run")
  else if run.status ∉ knownRunStatuses then some (true, "Unknown status (kept safely)")
  else if run.status ∈ unchangedRunStatuses then
    (withinExactDays run.timestamp now settings.unchangedRunDays).map (fun keep =>
      (keep, if keep then "Unchanged run retention" else "Unchanged run expired"))
  else if run.status ∈ changedRunStatuses then
    (withinExactDays run.timestamp now settings.changedRunDays).map (fun keep =>
      (keep, if keep then "Changed run retention" else "Changed run expired"))
  else
    (withinExactDays run.timestamp now settings.failedRunDays).map (fun keep =>
      (keep, if keep then "Failed run retention" else "Failed run expired"))

/-- Decide the runs newest first, counting the retained completed ones. -/
def decideRuns (settings : RetentionSettings) (now : Instant) :
    ℕ → List RunCandidate → Option (List RetentionDecision)
  | _, [] => some []
  | retained, run :: rest => do
    let (keep, reason) ← runRetention settings now run
    let completed := decide (run.status ∈ knownRunStatuses ∧ run.status ∉ activeRunStatuses)
    if completed && keep then
      if settings.maxRunsPerTarget ≤ retained then
        let others ← decideRuns settings now retained rest
        pure (⟨run.objectId, run.timestamp, false, ["Per-target run limit exceeded"]⟩ :: others)
      else
        let others ← decideRuns settings now (retained + 1) rest
        pure (⟨run.objectId, run.timestamp, keep, [reason]⟩ :: others)
    else
      let others ← decideRuns settings now retained rest
      pure (⟨run.objectId, run.timestamp, keep, [reason]⟩ :: others)

def planRuns (settings : RetentionSettings) (runs : List RunCandidate) (now : Instant) :
    Option (List RetentionDecision) :=
  decideRuns settings now 0 (newestFirst RunCandidate.newer runs)

def buildRetentionPlan (settings : RetentionSettings) (revisions : List RevisionCandidate)
    (runs : List RunCandidate) (now : Instant) : Option RetentionPlan := do
  let revisionDecisions ← planRevisions settings revisions now
  let runDecisions ← planRuns settings runs now
  pure ⟨now, revisionDecisions, runDecisions⟩

/-- Object ids of the decisions that do not keep their object. -/
def expired (decisions : List RetentionDecision) : List ℕ :=
  (decisions.filter (fun d => !d.keep)).map (fun d => d.objectId)

end ConfigBackup.Retention
