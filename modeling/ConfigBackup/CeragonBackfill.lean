import ConfigBackup.CeragonDumps
import ConfigBackup.PipelineStorage
import ConfigBackup.PosixPaths
import ConfigBackup.ResumableLoops
import ConfigBackup.RevisionChain

/-!
The backfill of extracted Ceragon configurations. A turn of its loop adds the configuration
file of one revision and its primary artifact, and when all revisions are through, the change
flags of the targets it has worked on are computed again. A turn that raises undoes its rows
and deletes the file it has put.
-/

namespace ConfigBackup.CeragonBackfill

open BackupPipeline CeragonDumps Calendar LocalStorage Models NewestFirst PipelineStorage
  PosixPaths RevisionChain Tables Text Transactions

/-- What the command uses of its driver. -/
structure BackfillDriver where
  configurationFilename : String
  configurationFormat : String
  normalizerVersion : String
  extractConfiguration : Bytes → Option Bytes
  validate : CollectedArtifact → Bool
  normalize : CollectedArtifact → Bytes

/-- `CeragonIP50Driver`, for a library that reads its archives. -/
def ceragonIP50Driver (extractConfiguration : Bytes → Option Bytes)
    (validate : CollectedArtifact → Bool) : BackfillDriver where
  configurationFilename := "config_dump.txt"
  configurationFormat := "ceragon_ceraos_config_dump"
  normalizerVersion := "2"
  extractConfiguration := extractConfiguration
  validate := validate
  normalize := CeragonDumps.normalize

/-- The driver, the hash, and the order in which a set of target ids is passed through. -/
structure BackfillEnvironment where
  driver : BackfillDriver
  sha256Hex : Bytes → String
  order : List ℕ → List ℕ
  order_perm : ∀ ids, (order ids).Perm ids

/-- A `CommandError` with its text, a storage error, or an error of the database. -/
inductive BackfillFailure
  | command (message : String)
  | storage
  | database
deriving DecidableEq, Repr

/-- Which calls raise, by number, and at which step a put does. -/
structure BackfillFaults where
  call : ℕ → Bool
  put : ℕ → Option PutStep

abbrev Backfill (α : Type) := Program Database Objects BackfillFailure α

structure BackfillSummary where
  planned : ℕ
  migrated : ℕ
  existing : ℕ
deriving DecidableEq, Repr

/-- What a turn adds to the artifacts of its revision. -/
structure ExtractedDump where
  key : String
  configuration : Bytes
  rawHash : String
  normalizedHash : String
deriving DecidableEq, Repr

inductive Turn
  | existing
  | planned
  | migrated
  | raced
deriving DecidableEq, Repr

structure BackfillProgress where
  summary : BackfillSummary
  affectedTargetIds : List ℕ
deriving DecidableEq, Repr

section Extraction

variable (env : BackfillEnvironment)

def artifactOfType (artifacts : List ConfigArtifact) (artifactType : String) :
    Option ConfigArtifact :=
  artifacts.find? (fun a => a.artifactType == artifactType)

/-- `load_artifact_content`. -/
def loadArtifactContent (objects : Objects) (artifact : ConfigArtifact) : Option Bytes :=
  if !artifact.localAvailable then none
  else (getObject objects artifact.storageKey).filter (fun content =>
    content.length == artifact.size && env.sha256Hex content == artifact.rawHash)

/-- `str(PurePosixPath(key).parent / filename)`. -/
def siblingKey (key filename : String) : String :=
  String.ofList (rootOf key.toList ++
    joinWith '/' ((components key.toList).dropLast ++ [filename.toList]))

def notExtracted (revisionId : ℕ) : BackfillFailure :=
  .command ("Revision " ++ toString revisionId ++ " could not be extracted safely.")

def collectedDump (configuration : Bytes) : CollectedArtifact where
  artifactType := "configuration_dump"
  filename := env.driver.configurationFilename
  content := configuration
  format := env.driver.configurationFormat
  isPrimary := true

/-- The dump that a native backup holds. -/
def extractDump (revisionId : ℕ) (native : ConfigArtifact) (objects : Objects) :
    Except BackfillFailure ExtractedDump :=
  match (loadArtifactContent env objects native).bind env.driver.extractConfiguration with
  | none => .error (notExtracted revisionId)
  | some configuration =>
    if !env.driver.validate (collectedDump env configuration) then
      .error (.command ("Revision " ++ toString revisionId ++ " failed configuration validation."))
    else .ok {
      key := siblingKey native.storageKey env.driver.configurationFilename
      configuration := configuration
      rawHash := env.sha256Hex configuration
      normalizedHash := env.sha256Hex (env.driver.normalize (collectedDump env configuration)) }

end Extraction

section Rows

variable (env : BackfillEnvironment) (revisionId : ℕ)

def hasDump (db : Database) (revisionId : ℕ) : Bool :=
  (db.artifactsOf revisionId).any (fun a => a.artifactType == "configuration_dump")

def dumpArtifact (dump : ExtractedDump) (pk : ℕ) : ConfigArtifact where
  pk := pk
  revision := revisionId
  artifactType := "configuration_dump"
  format := env.driver.configurationFormat
  storageKey := dump.key
  size := dump.configuration.length
  rawHash := dump.rawHash
  normalizedHash := dump.normalizedHash
  isPrimary := true
  localAvailable := true
  localDeletedAt := none

/-- The writes of a turn. -/
def addDump (dump : ExtractedDump) (db : Database) : Database :=
  { db with
    artifacts := (db.artifacts.map (fun a =>
      if a.revision == revisionId && a.isPrimary then { a with isPrimary := false } else a)
      (fun a => by split <;> rfl)).insert (dumpArtifact env revisionId dump) (fun _ => rfl)
    revisions := db.revisions.update revisionId (fun r =>
      { r with
        normalizedHash := dump.normalizedHash
        normalizerVersion := env.driver.normalizerVersion }) (fun _ => rfl) }

def rolledBack (revisionId : ℕ) : BackfillFailure :=
  .command ("Revision " ++ toString revisionId ++ " backfill failed and was rolled back.")

/-- The transaction of a turn; whether the dump was there already. -/
def commitDump (dump : ExtractedDump) (db : Database) :
    Except BackfillFailure (Bool × Database) :=
  if (db.revisions.get? revisionId).isNone then .error (rolledBack revisionId)
  else if hasDump db revisionId then .ok (true, db)
  else if storageKeysFree db [dump.key] then .ok (false, addDump env revisionId dump db)
  else .error (rolledBack revisionId)

end Rows

section Storage

variable (faults : BackfillFaults)

/-- A storage call that only reads; a key that leaves the root raises. -/
def readStorage {α : Type} (f : Path → Objects → Except BackfillFailure α) (key : String) :
    Backfill α :=
  action faults.call .storage (fun objects =>
    match localPath key with
    | none => .error .storage
    | some path => (f path objects).map (fun a => (a, objects)))

def existsObject (key : String) : Backfill Bool :=
  readStorage faults (fun path objects => .ok (objects path).isSome) key

def fetchObject (key : String) : Backfill Bytes :=
  readStorage faults (fun path objects =>
    match objects path with
    | none => .error .storage
    | some content => .ok content) key

/-- A put may leave its file although it raises. -/
def putObject (key : String) (content : Bytes) : Backfill Unit := fun s =>
  let written := put BackfillFailure.storage
    ((faults.put s.calls).map (fun step => (step, BackfillFailure.storage))) key content s.world
  match written.1 with
  | .error e => .error e { s with world := written.2, calls := s.calls + 1 }
  | .ok _ => .ok () { s with world := written.2, calls := s.calls + 1 }

def deleteObject (key : String) : Backfill Unit :=
  action faults.call .storage (fun objects => .ok ((), delete key objects))

/-- `except`: delete the file that the turn has put, then raise again. -/
def cleaningUp (created : Bool) (key : String) {α : Type} (body : Backfill α) : Backfill α :=
  fun s =>
    match body s with
    | .ok a t => .ok a t
    | .error e t =>
      if created then
        match deleteObject faults key t with
        | .ok _ u => .error e u
        | .error _ u => .error e u
      else .error e t

/-- Put the dump, unless its file is there already; whether it was put. -/
def storeDump (env : BackfillEnvironment) (revisionId : ℕ) (dump : ExtractedDump) :
    Backfill Bool := do
  if ← existsObject faults dump.key then
    let stored ← fetchObject faults dump.key
    if stored.length != dump.configuration.length || env.sha256Hex stored != dump.rawHash then
      throw (.command
        ("Revision " ++ toString revisionId ++ " has a conflicting storage object."))
    else pure false
  else do
    putObject faults dump.key dump.configuration
    pure true

/-- The transaction; a file that was put for nothing is deleted in it. -/
def commitTurn (env : BackfillEnvironment) (revisionId : ℕ) (dump : ExtractedDump)
    (created : Bool) : Backfill Turn := do
  let raced ← transact faults.call (rolledBack revisionId) (commitDump env revisionId dump)
  if raced then do
    if created then deleteObject faults dump.key
    pure .raced
  else pure .migrated

end Storage

section Command

variable (env : BackfillEnvironment) (faults : BackfillFaults) (applyChanges : Bool)

def invalidExtracted (revisionId : ℕ) : BackfillFailure :=
  .command ("Revision " ++ toString revisionId ++ " has an invalid extracted artifact.")

def noNative (revisionId : ℕ) : BackfillFailure :=
  .command ("Revision " ++ toString revisionId ++ " has no native Ceragon backup artifact.")

/-- One turn of the loop; `rows` are the rows that were read before the first one. -/
def backfillRevision (rows : Database) (revisionId : ℕ) : Backfill Turn :=
  let artifacts := rows.artifactsOf revisionId
  match artifactOfType artifacts "configuration_dump" with
  | some current =>
    action faults.call (invalidExtracted revisionId) (fun objects =>
      match loadArtifactContent env objects current with
      | none => .error (invalidExtracted revisionId)
      | some _ => .ok (.existing, objects))
  | none =>
    match artifactOfType artifacts "native_backup" with
    | none => throw (noNative revisionId)
    | some native => do
      let dump ← action faults.call (notExtracted revisionId) (fun objects =>
        (extractDump env revisionId native objects).map (fun dump => (dump, objects)))
      if !applyChanges then pure .planned
      else do
        let created ← storeDump faults env revisionId dump
        cleaningUp faults created dump.key (commitTurn faults env revisionId dump created)

def BackfillProgress.add (p : BackfillProgress) (targetId : ℕ) : Turn → BackfillProgress
  | .existing => { p with summary := { p.summary with existing := p.summary.existing + 1 } }
  | .planned =>
    ⟨{ p.summary with planned := p.summary.planned + 1 }, p.affectedTargetIds.insert targetId⟩
  | .migrated =>
    ⟨{ p.summary with planned := p.summary.planned + 1, migrated := p.summary.migrated + 1 },
      p.affectedTargetIds.insert targetId⟩
  | .raced =>
    ⟨{ p.summary with planned := p.summary.planned + 1, existing := p.summary.existing + 1 },
      p.affectedTargetIds.insert targetId⟩

def backfillRevisions (rows : Database) :
    List ConfigRevision → BackfillProgress → Backfill BackfillProgress
  | [], p => pure p
  | revision :: rest, p => do
    let turn ← backfillRevision env faults applyChanges rows revision.pk
    backfillRevisions rows rest (p.add revision.target turn)

/-- Earlier in the order of the query set. -/
def earlier (a b : ConfigRevision) : Prop :=
  a.target < b.target ∨ (a.target = b.target ∧ older a b)

instance : DecidableRel earlier := fun _ _ => inferInstanceAs (Decidable (_ ∨ _))

/-- The Ceragon revisions, or the one of them that `--revision-id` names. -/
def backfillQueryset (db : Database) (revisionId : Option ℕ) : List ConfigRevision :=
  newestFirst earlier (db.revisions.rows.filter (fun r => r.driverId == "ceragon_ip50" &&
    revisionId.all (fun pk => pk == 0 || r.pk == pk)))

def ceragonRevisions (db : Database) (targetId : ℕ) : List ConfigRevision :=
  oldestFirst (db.revisions.rows.filter (fun r => r.target == targetId &&
    r.driverId == "ceragon_ip50"))

/-- The previous hash, the last change and the rows in the loop over a target's revisions. -/
structure FlagsProgress where
  previousHash : Option String
  lastChangedAt : Option Instant
  db : Database

def saveContentChanged (db : Database) (revisionId : ℕ) (changed : Bool) : Database :=
  { db with
    revisions := db.revisions.update revisionId (fun r => { r with contentChanged := changed })
      (fun _ => rfl) }

/-- The runs of a revision that turned out to be unchanged. -/
def correctRuns (db : Database) (revisionId : ℕ) : Database :=
  { db with
    runs := db.runs.map (fun run =>
      if run.revision == some revisionId && run.status == .successChanged then
        { run with status := .successUnchanged, changed := false } else run)
      (fun run => by split <;> rfl) }

def recomputeFlag (p : FlagsProgress) (revision : ConfigRevision) : FlagsProgress :=
  let changed := p.previousHash != some revision.normalizedHash
  let db := if revision.contentChanged != changed then
      saveContentChanged p.db revision.pk changed else p.db
  if changed then ⟨some revision.normalizedHash, some revision.created, db⟩
  else ⟨some revision.normalizedHash, p.lastChangedAt, correctRuns db revision.pk⟩

def saveLastChangeAt (db : Database) (targetId : ℕ) (lastChangedAt : Option Instant) : Database :=
  match lastChangedAt with
  | none => db
  | some changedAt =>
    { db with
      targets := db.targets.update targetId (fun t => { t with lastChangeAt := some changedAt })
        (fun _ => rfl) }

/-- `_recompute_change_flags`. -/
def recomputeChangeFlags (db : Database) (targetId : ℕ) : Database :=
  let p := (ceragonRevisions db targetId).foldl recomputeFlag ⟨none, none, db⟩
  saveLastChangeAt p.db targetId p.lastChangedAt

def recomputeTargets : List ℕ → Backfill Unit
  | [] => pure ()
  | targetId :: rest => do
    transact faults.call .database (fun db => .ok ((), recomputeChangeFlags db targetId))
    recomputeTargets rest

/-- `Command.handle`. -/
def handle (revisionId : Option ℕ) : Backfill BackfillSummary := do
  let rows ← select faults.call .database id
  let p ← backfillRevisions env faults applyChanges rows (backfillQueryset rows revisionId)
    ⟨⟨0, 0, 0⟩, []⟩
  if applyChanges then recomputeTargets faults (env.order p.affectedTargetIds)
  pure p.summary

end Command

section Turns

/-- The rows and the files. -/
abbrev Stored := Database × Objects

variable (env : BackfillEnvironment)

/-- The files with the dump; another file in its place stops the turn. -/
def storedObjects (dump : ExtractedDump) (objects : Objects) : Option Objects :=
  (localPath dump.key).bind (fun path =>
    match objects path with
    | none => some (withObject objects path dump.configuration)
    | some stored =>
      if stored.length != dump.configuration.length || env.sha256Hex stored != dump.rawHash then
        none
      else some objects)

/-- The dump of a revision that has none yet. -/
def missingDump (revisionId : ℕ) (s : Stored) : Option ExtractedDump :=
  (artifactOfType (s.1.artifactsOf revisionId) "native_backup").bind (fun native =>
    (extractDump env revisionId native s.2).toOption)

/-- A turn in which nothing fails. -/
def turn (revisionId : ℕ) (s : Stored) : Option Stored :=
  match artifactOfType (s.1.artifactsOf revisionId) "configuration_dump" with
  | some current => (loadArtifactContent env s.2 current).map (fun _ => s)
  | none =>
    (missingDump env revisionId s).bind (fun dump =>
      (storedObjects env dump s.2).bind (fun objects =>
        (commitDump env revisionId dump s.1).toOption.map (fun committed =>
          (committed.2, objects))))

/-- The file of a dump that lies where no file was. -/
def LeftBehind (revisionId : ℕ) (s : Stored) (objects : Objects) : Prop :=
  ∃ dump path, missingDump env revisionId s = some dump ∧ localPath dump.key = some path ∧
    s.2 path = none ∧ objects = withObject s.2 path dump.configuration

/-- The loop of the backfill; an interrupted turn may leave the file of its dump. -/
def backfillLoop : ResumableLoops.Loop ℕ Stored where
  turn := turn env
  Finished revisionId s := hasDump s.1 revisionId = true
  Residue revisionId s t := t = s ∨
    (hasDump s.1 revisionId = false ∧ t.1 = s.1 ∧ LeftBehind env revisionId s t.2)

variable {env} {revisionId : ℕ} {s t : Stored}

theorem isSome_artifactOfType (db : Database) (revisionId : ℕ) :
    (artifactOfType (db.artifactsOf revisionId) "configuration_dump").isSome =
      hasDump db revisionId := by
  unfold artifactOfType hasDump
  rw [List.isSome_find?]

theorem not_found {db : Database} (h : hasDump db revisionId = false) :
    artifactOfType (db.artifactsOf revisionId) "configuration_dump" = none := by
  rw [← isSome_artifactOfType, Option.isSome_eq_false_iff] at h
  exact Option.isNone_iff_eq_none.mp h

theorem hasDump_iff {db : Database} : hasDump db revisionId = true ↔
    ∃ a ∈ db.artifacts, a.revision = revisionId ∧ a.artifactType = "configuration_dump" := by
  unfold hasDump Database.artifactsOf
  simp [Table.mem_iff, and_assoc]

/-- A turn passes over its revision or adds the dump to it. -/
theorem turn_cases (h : turn env revisionId s = some t) :
    (hasDump s.1 revisionId = true ∧ t = s) ∨
      (hasDump s.1 revisionId = false ∧ ∃ dump, missingDump env revisionId s = some dump ∧
        storedObjects env dump s.2 = some t.2 ∧
        commitDump env revisionId dump s.1 = .ok (false, t.1) ∧
        t.1 = addDump env revisionId dump s.1) := by
  unfold turn at h
  have hdump := isSome_artifactOfType s.1 revisionId
  cases hfound : artifactOfType (s.1.artifactsOf revisionId) "configuration_dump" with
  | some current =>
    rw [hfound] at h hdump
    obtain ⟨_, _, hsame⟩ := Option.map_eq_some_iff.mp h
    exact Or.inl ⟨hdump.symm, hsame.symm⟩
  | none =>
    rw [hfound] at h hdump
    obtain ⟨dump, hmissing, h⟩ := Option.bind_eq_some_iff.mp h
    obtain ⟨objects, hobjects, h⟩ := Option.bind_eq_some_iff.mp h
    obtain ⟨committed, hcommitted, hresult⟩ := Option.map_eq_some_iff.mp h
    have hnone : hasDump s.1 revisionId = false := hdump.symm
    refine Or.inr ⟨hnone, dump, hmissing, ?_, ?_⟩
    · rw [hobjects, ← hresult]
    · cases hcommit : commitDump env revisionId dump s.1 with
      | error e =>
        rw [hcommit] at hcommitted
        cases hcommitted
      | ok pair =>
        rw [hcommit] at hcommitted
        cases hcommitted
        unfold commitDump at hcommit
        rw [hnone] at hcommit
        split at hcommit
        · cases hcommit
        · rw [if_neg Bool.false_ne_true] at hcommit
          split at hcommit
          · cases hcommit
            rw [← hresult]
            exact ⟨rfl, rfl⟩
          · cases hcommit

/-- An artifact of the revision stops being its primary one. -/
def demoted (revisionId : ℕ) (a : ConfigArtifact) : ConfigArtifact :=
  if a.revision == revisionId && a.isPrimary then { a with isPrimary := false } else a

theorem demoted_eq (a : ConfigArtifact) :
    (demoted revisionId a).revision = a.revision ∧
      (demoted revisionId a).artifactType = a.artifactType := by
  unfold demoted
  split <;> exact ⟨rfl, rfl⟩

theorem artifacts_addDump {dump : ExtractedDump} {db : Database} :
    (addDump env revisionId dump db).artifacts.rows =
      db.artifacts.rows.map (demoted revisionId) ++
        [dumpArtifact env revisionId dump db.artifacts.next] := rfl

theorem hasDump_addDump {dump : ExtractedDump} {db : Database} {other : ℕ} :
    hasDump (addDump env revisionId dump db) other = true ↔
      hasDump db other = true ∨ other = revisionId := by
  simp only [hasDump_iff, Table.mem_iff, artifacts_addDump, List.mem_append, List.mem_map,
    List.mem_singleton]
  constructor
  · rintro ⟨a, ⟨b, hb, rfl⟩ | rfl, hrevision, htype⟩
    · rw [(demoted_eq b).1] at hrevision
      rw [(demoted_eq b).2] at htype
      exact Or.inl ⟨b, hb, hrevision, htype⟩
    · exact Or.inr hrevision.symm
  · rintro (⟨a, ha, hrevision, htype⟩ | rfl)
    · exact ⟨demoted revisionId a, Or.inl ⟨a, ha, rfl⟩, (demoted_eq a).1.trans hrevision,
        (demoted_eq a).2.trans htype⟩
    · exact ⟨_, Or.inr rfl, rfl, rfl⟩

/-- A turn leaves the artifacts of the other revisions. -/
theorem artifactsOf_addDump {dump : ExtractedDump} {db : Database} {other : ℕ}
    (h : other ≠ revisionId) :
    (addDump env revisionId dump db).artifactsOf other = db.artifactsOf other := by
  have hlast : (dumpArtifact env revisionId dump db.artifacts.next).revision ≠ other :=
    fun heq => h heq.symm
  have hmap : (db.artifacts.rows.map (demoted revisionId)).filter
      (fun a => a.revision == other) = db.artifacts.rows.filter (fun a => a.revision == other) := by
    rw [List.filter_map]
    have hsame : ((fun a : ConfigArtifact => a.revision == other) ∘ demoted revisionId) =
        fun a => a.revision == other := by
      funext a
      rw [Function.comp_apply, (demoted_eq a).1]
    rw [hsame]
    refine (List.map_congr_left (fun a ha => ?_)).trans (List.map_id _)
    have hrevision := (List.mem_filter.mp ha).2
    rw [beq_iff_eq] at hrevision
    unfold demoted
    rw [if_neg]
    · rfl
    · simp [hrevision, h]
  unfold Database.artifactsOf
  rw [artifacts_addDump, List.filter_append, hmap]
  simp [hlast]

theorem hasDump_of_turn (h : turn env revisionId s = some t) {other : ℕ} :
    hasDump t.1 other = true ↔ hasDump s.1 other = true ∨ other = revisionId := by
  rcases turn_cases h with ⟨hdump, rfl⟩ | ⟨_, dump, _, _, _, hrows⟩
  · constructor
    · exact Or.inl
    · rintro (hother | rfl)
      · exact hother
      · exact hdump
  · rw [hrows]
    exact hasDump_addDump

/-- A load that returns also returns when there are more files. -/
theorem loadArtifactContent_more {objects : Objects} {path : Path} {content loaded : Bytes}
    {artifact : ConfigArtifact} (hfree : objects path = none)
    (h : loadArtifactContent env objects artifact = some loaded) :
    loadArtifactContent env (withObject objects path content) artifact = some loaded := by
  unfold loadArtifactContent at h ⊢
  split
  · rename_i hgone
    rw [if_pos hgone] at h
    cases h
  · rename_i havailable
    rw [if_neg havailable] at h
    obtain ⟨hget, hmatches⟩ := Option.filter_eq_some_iff.mp h
    refine Option.filter_eq_some_iff.mpr ⟨?_, hmatches⟩
    unfold getObject at hget ⊢
    obtain ⟨other, hother, hread⟩ := Option.bind_eq_some_iff.mp hget
    refine Option.bind_eq_some_iff.mpr ⟨other, hother, ?_⟩
    rw [withObject_other]
    · exact hread
    · rintro rfl
      rw [hfree] at hread
      cases hread

theorem extractDump_more {objects : Objects} {path : Path} {content : Bytes}
    {native : ConfigArtifact} {dump : ExtractedDump} (hfree : objects path = none)
    (h : extractDump env revisionId native objects = .ok dump) :
    extractDump env revisionId native (withObject objects path content) = .ok dump := by
  unfold extractDump at h ⊢
  cases hload : loadArtifactContent env objects native with
  | none =>
    rw [hload] at h
    cases h
  | some loaded =>
    rw [hload] at h
    rw [loadArtifactContent_more hfree hload]
    exact h

/-- The file that was left behind changes nothing about the dump. -/
theorem missingDump_more {objects : Objects} {path : Path} {content : Bytes}
    {dump : ExtractedDump} (hfree : s.2 path = none)
    (hobjects : objects = withObject s.2 path content)
    (h : missingDump env revisionId s = some dump) :
    missingDump env revisionId (s.1, objects) = some dump := by
  unfold missingDump at h ⊢
  obtain ⟨native, hnative, hdump⟩ := Option.bind_eq_some_iff.mp h
  refine Option.bind_eq_some_iff.mpr ⟨native, hnative, ?_⟩
  cases hextract : extractDump env revisionId native s.2 with
  | error e =>
    rw [hextract] at hdump
    cases hdump
  | ok found =>
    rw [hextract] at hdump
    rw [hobjects, extractDump_more hfree hextract]
    exact hdump

theorem rawHash_missingDump {dump : ExtractedDump}
    (h : missingDump env revisionId s = some dump) :
    env.sha256Hex dump.configuration = dump.rawHash := by
  obtain ⟨native, _, hdump⟩ := Option.bind_eq_some_iff.mp h
  unfold extractDump at hdump
  split at hdump
  · cases hdump
  · split at hdump
    · cases hdump
    · cases hdump
      rfl

/-- The next attempt finds the file as it would have put it. -/
theorem storedObjects_leftBehind {dump : ExtractedDump} {path : Path} {objects : Objects}
    (hpath : localPath dump.key = some path) (hfree : s.2 path = none)
    (hmissing : missingDump env revisionId s = some dump)
    (hobjects : objects = withObject s.2 path dump.configuration) :
    storedObjects env dump objects = storedObjects env dump s.2 := by
  have hhash := rawHash_missingDump hmissing
  unfold storedObjects
  rw [hpath, Option.bind_some, Option.bind_some, hfree, hobjects, withObject_same]
  simp [hhash]

theorem resumable_backfillLoop : (backfillLoop env).Resumable where
  finishes := fun h => (hasDump_of_turn h).mpr (Or.inr rfl)
  keeps := fun h hj => (hasDump_of_turn h).mpr (Or.inl hj)
  passed := by
    intro i s t hdone h
    rcases turn_cases h with ⟨_, hsame⟩ | ⟨hnone, _⟩
    · exact hsame
    · rw [show hasDump s.1 i = true from hdone] at hnone
      cases hnone
  residue_passed := by
    intro i s t hdone h
    rcases h with hsame | ⟨hnone, _⟩
    · exact hsame
    · rw [show hasDump s.1 i = true from hdone] at hnone
      cases hnone
  residue_keeps := by
    intro i j s t h hdone
    rcases h with rfl | ⟨_, hrows, _⟩
    · exact hdone
    · show hasDump t.1 j = true
      rw [hrows]
      exact hdone
  residue_trans := by
    intro i s t u h h'
    rcases h with rfl | ⟨hnone, hrows, dump, path, hmissing, hpath, hfree, hobjects⟩
    · exact h'
    · rcases h' with rfl | ⟨_, hrows', dump', path', hmissing', hpath', hfree', hobjects'⟩
      · exact Or.inr ⟨hnone, hrows, dump, path, hmissing, hpath, hfree, hobjects⟩
      · -- The place of the dump is taken already.
        have hsame := missingDump_more hfree hobjects hmissing
        rw [← hrows] at hsame
        have hdump : dump' = dump := Option.some.inj (hmissing'.symm.trans hsame)
        rw [hdump, hpath, Option.some.injEq] at hpath'
        rw [← hpath', hobjects, withObject_same] at hfree'
        cases hfree'
  taken_up := by
    intro i s t u h hturn
    rcases h with rfl | ⟨hnone, hrows, dump, path, hmissing, hpath, hfree, hobjects⟩
    · exact hturn
    · have hsame := missingDump_more hfree hobjects hmissing
      have hstored := storedObjects_leftBehind hpath hfree hmissing hobjects
      have hfind := not_found hnone
      change turn env i s = some u
      change turn env i t = some u at hturn
      unfold turn at hturn ⊢
      rw [hrows, hfind] at hturn
      rw [hfind, hmissing]
      rw [show t = (s.1, t.2) from Prod.ext hrows rfl, hsame] at hturn
      simp only [Option.bind_some, hstored] at hturn ⊢
      exact hturn

end Turns

section Runs

variable {env : BackfillEnvironment} {faults : BackfillFaults} {revisionId : ℕ} {rows db : Database}
  {objects : Objects} {dump : ExtractedDump}

/-- The turn leaves what it found, or the file of its dump. -/
def Raised (env : BackfillEnvironment) (revisionId : ℕ) (s : Stored) (d : Database)
    (w : Objects) : Prop :=
  (backfillLoop env).Residue revisionId s (d, w)

/-- The dump is stored: its file is put where none was, or was there already. -/
def StoredDump (env : BackfillEnvironment) (dump : ExtractedDump) (objects : Objects)
    (created : Bool) (w : Objects) : Prop :=
  storedObjects env dump objects = some w ∧
    if created then ∃ path, localPath dump.key = some path ∧ objects path = none ∧
      w = withObject objects path dump.configuration
    else w = objects

theorem raised_start {s : Stored} {d : Database} {w : Objects} (h : d = s.1 ∧ w = s.2) :
    Raised env revisionId s d w :=
  Or.inl (Prod.ext h.1 h.2)

theorem raised_of_storedDump {created : Bool} {w : Objects} (hnone : hasDump db revisionId = false)
    (hmissing : missingDump env revisionId (db, objects) = some dump)
    (h : StoredDump env dump objects created w) : Raised env revisionId (db, objects) db w := by
  cases created with
  | false => exact raised_start ⟨rfl, h.2⟩
  | true =>
    obtain ⟨_, path, hpath, hfree, hw⟩ := h
    exact Or.inr ⟨hnone, rfl, dump, path, hmissing, hpath, hfree, hw⟩

theorem triple_readStorage {α : Type} {f : Path → Objects → Except BackfillFailure α} {key : String}
    {post : α → Database → Objects → Prop} {raised : Database → Objects → Prop}
    {pre : Database → Objects → Prop}
    (hok : ∀ d w path a, pre d w → localPath key = some path → f path w = .ok a → post a d w)
    (herror : ∀ d w, pre d w → raised d w) :
    Triple pre (readStorage faults f key) post raised := by
  refine triple_action (fun d w a w' hpre hrun => ?_) herror
  cases hpath : localPath key with
  | none =>
    rw [hpath] at hrun
    cases hrun
  | some path =>
    simp only [hpath] at hrun
    cases hf : f path w with
    | error e =>
      rw [hf] at hrun
      cases hrun
    | ok found =>
      rw [hf] at hrun
      cases hrun
      exact hok d w path a hpre hpath hf

theorem triple_putObject (hnone : hasDump db revisionId = false)
    (hmissing : missingDump env revisionId (db, objects) = some dump) {path : Path}
    (hpath : localPath dump.key = some path) (hfree : objects path = none) :
    Triple (fun d w => d = db ∧ w = objects) (putObject faults dump.key dump.configuration)
      (fun _ d w => d = db ∧ StoredDump env dump objects true w)
      (Raised env revisionId (db, objects)) := by
  intro s ⟨hdb, hworld⟩
  have hleft : StoredDump env dump objects true (withObject objects path dump.configuration) := by
    refine ⟨?_, path, hpath, hfree, rfl⟩
    unfold storedObjects
    rw [hpath, Option.bind_some, hfree]
  have hkept := raised_of_storedDump hnone hmissing hleft
  unfold putObject put
  rw [hworld, hpath]
  cases faults.put s.calls with
  | none => exact ⟨hdb, hleft⟩
  | some step =>
    cases step with
    | setMode => exact hdb ▸ hkept
    | makeDirectory => exact raised_start ⟨hdb, rfl⟩
    | createTemporary => exact raised_start ⟨hdb, rfl⟩
    | writeTemporary => exact raised_start ⟨hdb, rfl⟩
    | rename => exact raised_start ⟨hdb, rfl⟩

theorem triple_storeDump (hnone : hasDump db revisionId = false)
    (hmissing : missingDump env revisionId (db, objects) = some dump) :
    Triple (fun d w => d = db ∧ w = objects) (storeDump faults env revisionId dump)
      (fun created d w => d = db ∧ StoredDump env dump objects created w)
      (Raised env revisionId (db, objects)) := by
  have hstart : ∀ d w, d = db ∧ w = objects → Raised env revisionId (db, objects) d w :=
    fun d w h => raised_start h
  have hexists : Triple (fun d w => d = db ∧ w = objects) (existsObject faults dump.key)
      (fun found d w => (∃ path, localPath dump.key = some path ∧
        found = (objects path).isSome) ∧ d = db ∧ w = objects)
      (Raised env revisionId (db, objects)) := by
    refine triple_readStorage (fun d w path found h hpath hfound => ?_) hstart
    cases hfound
    exact ⟨⟨path, hpath, by rw [h.2]⟩, h⟩
  unfold storeDump
  refine hexists.bind (fun found => ?_)
  refine Triple.assume (fun ⟨path, hpath, hfound⟩ => ?_)
  cases found with
  | false =>
    have hfree : objects path = none :=
      Option.isNone_iff_eq_none.mp (Option.isSome_eq_false_iff.mp hfound.symm)
    refine (triple_putObject hnone hmissing hpath hfree).bind (fun _ => ?_)
    exact triple_pure (fun d w h => h)
  | true =>
    have hfetch : Triple (fun d w => d = db ∧ w = objects) (fetchObject faults dump.key)
        (fun stored d w => objects path = some stored ∧ d = db ∧ w = objects)
        (Raised env revisionId (db, objects)) := by
      refine triple_readStorage (fun d w other stored h hother hstored => ?_) hstart
      rw [hpath, Option.some.injEq] at hother
      rw [← hother, h.2] at hstored
      cases hread : objects path with
      | none =>
        rw [hread] at hstored
        cases hstored
      | some content =>
        rw [hread] at hstored
        cases hstored
        exact ⟨rfl, h⟩
    refine hfetch.bind (fun stored => ?_)
    refine Triple.assume (fun hread => ?_)
    by_cases hdiffers : (stored.length != dump.configuration.length ||
        env.sha256Hex stored != dump.rawHash) = true
    · rw [if_pos hdiffers]
      exact triple_throw hstart
    · rw [if_neg hdiffers]
      refine triple_pure (fun d w h => ⟨h.1, ?_, h.2⟩)
      unfold storedObjects
      rw [hpath, Option.bind_some, hread]
      dsimp only
      rw [if_neg hdiffers, h.2]

/-- The transaction commits the turn or leaves everything as it was. -/
theorem triple_commitTurn {created : Bool} {w₀ : Objects} (hnone : hasDump db revisionId = false)
    (hmissing : missingDump env revisionId (db, objects) = some dump)
    (hstored : StoredDump env dump objects created w₀) :
    Triple (fun d w => d = db ∧ w = w₀) (commitTurn faults env revisionId dump created)
      (fun result d w => result = .migrated ∧
        turn env revisionId (db, objects) = some (d, w))
      (fun d w => d = db ∧ w = w₀) := by
  intro s ⟨hdb, hworld⟩
  rcases transact_cases faults.call (rolledBack revisionId) (commitDump env revisionId dump) s with
    ⟨e, herror⟩ | ⟨_, raced, db', hcommit, hok⟩
  · unfold commitTurn
    rw [bind_of_error herror]
    exact ⟨hdb, hworld⟩
  · rw [hdb] at hcommit
    have hraced : raced = false := by
      unfold commitDump at hcommit
      rw [hnone] at hcommit
      split at hcommit
      · cases hcommit
      · rw [if_neg Bool.false_ne_true] at hcommit
        split at hcommit
        · cases hcommit
          rfl
        · cases hcommit
    have hfind := not_found hnone
    unfold commitTurn
    rw [bind_of_ok hok, hraced]
    refine ⟨rfl, ?_⟩
    unfold turn
    dsimp only
    rw [hfind, hmissing]
    simp only [Option.bind_some, hstored.1, hcommit, Except.toOption, Option.map_some, hworld]

theorem delete_put {created : Bool} {w : Objects} (h : StoredDump env dump objects created w)
    (hcreated : created = true) : delete dump.key w = objects := by
  subst hcreated
  obtain ⟨_, path, hpath, hfree, hw⟩ := h
  rw [delete_of_some hpath, hw]
  funext other
  by_cases hsame : other = path
  · rw [hsame, withoutObject_same, hfree]
  · rw [withoutObject_other hsame, withObject_other hsame]

theorem triple_cleaningUp {created : Bool} (hnone : hasDump db revisionId = false)
    (hmissing : missingDump env revisionId (db, objects) = some dump) :
    Triple (fun d w => d = db ∧ StoredDump env dump objects created w)
      (cleaningUp faults created dump.key (commitTurn faults env revisionId dump created))
      (fun result d w => result = .migrated ∧
        turn env revisionId (db, objects) = some (d, w))
      (Raised env revisionId (db, objects)) := by
  intro s ⟨hdb, hstored⟩
  have hcommit := @triple_commitTurn env faults revisionId db objects dump created s.world hnone
    hmissing hstored s ⟨hdb, rfl⟩
  unfold cleaningUp
  cases hrun : commitTurn faults env revisionId dump created s with
  | ok result t =>
    rw [hrun] at hcommit
    exact hcommit
  | error e t =>
    rw [hrun] at hcommit
    obtain ⟨htdb, htworld⟩ := hcommit
    rw [← htworld] at hstored
    dsimp only
    by_cases hcreated : created = true
    · rw [if_pos hcreated]
      unfold deleteObject action
      by_cases hfails : faults.call t.calls = true
      · rw [if_pos hfails]
        show Raised env revisionId (db, objects) t.db t.world
        rw [htdb]
        exact raised_of_storedDump hnone hmissing hstored
      · rw [if_neg hfails]
        exact raised_start ⟨htdb, delete_put hstored hcreated⟩
    · rw [if_neg hcreated]
      show Raised env revisionId (db, objects) t.db t.world
      rw [htdb]
      exact raised_of_storedDump hnone hmissing hstored

/-- A turn ends as the turn without faults does, or leaves its residue. -/
theorem triple_backfillRevision (hrows : rows.artifactsOf revisionId = db.artifactsOf revisionId) :
    Triple (fun d w => d = db ∧ w = objects) (backfillRevision env faults true rows revisionId)
      (fun result d w => turn env revisionId (db, objects) = some (d, w) ∧
        result = if hasDump db revisionId then .existing else .migrated)
      (Raised env revisionId (db, objects)) := by
  have hstart : ∀ d w, d = db ∧ w = objects → Raised env revisionId (db, objects) d w :=
    fun d w h => raised_start h
  have hdump := isSome_artifactOfType db revisionId
  unfold backfillRevision
  dsimp only
  rw [hrows]
  cases hfind : artifactOfType (db.artifactsOf revisionId) "configuration_dump" with
  | some current =>
    rw [hfind] at hdump
    refine triple_action (fun d w result w' h hrun => ?_) hstart
    cases hload : loadArtifactContent env w current with
    | none =>
      rw [hload] at hrun
      cases hrun
    | some content =>
      rw [hload] at hrun
      cases hrun
      rw [← hdump]
      refine ⟨?_, rfl⟩
      unfold turn
      dsimp only
      rw [hfind, ← h.2]
      dsimp only
      rw [hload, h.1]
      rfl
  | none =>
    rw [hfind] at hdump
    have hnone : hasDump db revisionId = false := hdump.symm
    dsimp only
    cases hnative : artifactOfType (db.artifactsOf revisionId) "native_backup" with
    | none => exact triple_throw hstart
    | some native =>
      dsimp only
      have hextracted : Triple (fun d w => d = db ∧ w = objects)
          (action faults.call (notExtracted revisionId) (fun objects =>
            (extractDump env revisionId native objects).map (fun dump => (dump, objects))))
          (fun dump d w => missingDump env revisionId (db, objects) = some dump ∧ d = db ∧
            w = objects)
          (Raised env revisionId (db, objects)) := by
        refine triple_action (fun d w dump w' h hrun => ?_) hstart
        cases hextract : extractDump env revisionId native w with
        | error e =>
          rw [hextract] at hrun
          cases hrun
        | ok found =>
          rw [hextract] at hrun
          cases hrun
          refine ⟨?_, h⟩
          unfold missingDump
          dsimp only
          rw [hnative, Option.bind_some, ← h.2, hextract]
          rfl
      refine hextracted.bind (fun dump => ?_)
      refine Triple.assume (fun hmissing => ?_)
      rw [if_neg (by decide)]
      refine (triple_storeDump hnone hmissing).bind (fun created => ?_)
      refine (triple_cleaningUp hnone hmissing).mono (fun result d w h => ?_) (fun _ _ h => h)
      rw [hnone]
      exact ⟨h.2, h.1⟩

end Runs

end ConfigBackup.CeragonBackfill
