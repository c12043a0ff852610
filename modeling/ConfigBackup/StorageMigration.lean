import ConfigBackup.Models
import ConfigBackup.StorageKeys

/-!
The migration of the artifacts from the local storage to the S3 storage. What is there already
is verified, a missing object is written on the condition that there is none, and the first
object or file that cannot be verified ends the run.
-/

namespace ConfigBackup.StorageMigration

open LocalStorage Models Requests S3Storage StorageKeys

/-- The counters of the command. -/
structure Counts where
  copied : ℕ
  pending : ℕ
  existing : ℕ
  missing : ℕ
  verified : ℕ
deriving DecidableEq, Repr

/-- What ends the command with an error. -/
inductive MigrationError
  | storage (artifact : ℕ)
  | integrity (artifact : ℕ)
  | missing (counts : Counts)
deriving DecidableEq, Repr

/-- The text of the `CommandError`. -/
def MigrationError.message : MigrationError → String
  | .storage artifact =>
    "Storage migration stopped safely at artifact ID " ++ toString artifact ++ "."
  | .integrity artifact => "Artifact ID " ++ toString artifact ++
      " failed its integrity check; migration stopped."
  | .missing _ =>
    "Some database artifacts are missing from local storage; do not switch backends."

/-- The report of the command. -/
def Counts.report (counts : Counts) (commit : Bool) : String :=
  "S3 " ++ (if commit then "migration" else "dry run") ++ " complete: verified=" ++
    toString counts.verified ++ ", pending=" ++ toString counts.pending ++ ", copied=" ++
    toString counts.copied ++ ", already_present=" ++ toString counts.existing ++
    ", missing_local=" ++ toString counts.missing ++ "."

/-- `except StorageError`: whatever was raised becomes another error. -/
def raiseAs {ω ε ε' α : Type} (e : ε') (m : Requests ω ε α) : Requests ω ε' α := fun c =>
  match m c with
  | .ok a d => .ok a d
  | .error _ d => .error e d

section Program

variable (etagOf : List UInt8 → String) (storagePrefix : String) (maxObjectBytes : ℕ)
  (fates : ℕ → Fate)

/-- A write with `IfNoneMatch`: an object that is there is an error. -/
def putObject (objectKey : String) (content : List UInt8) : Requests Bucket Raised Unit :=
  request fates (.client false) (fun bucket =>
    match bucket objectKey with
    | some _ => (.error (.client false), bucket)
    | none => (.ok (), Function.update bucket objectKey (some content)))

/-- `put`. -/
def put (key : String) (content : List UInt8) : Requests Bucket Raised Unit :=
  if maxObjectBytes < content.length then
    throw (.storage "Configuration object exceeds the S3 size limit.")
  else
    handle (withKey storagePrefix key (fun k => putObject fates k content))
      (fun _ => throw (.storage "S3 configuration write failed."))

def getObject (objectKey : String) : Requests Bucket Raised (List UInt8) :=
  request fates (.client false) (fun bucket =>
    match bucket objectKey with
    | none => (.error (.client true), bucket)
    | some content => (.ok content, bucket))

/-- `get`. -/
def get (key : String) : Requests Bucket Raised (List UInt8) :=
  handle (withKey storagePrefix key (fun k => do
      let content ← getObject fates k
      if maxObjectBytes < content.length then
        throw (.storage "S3 configuration object exceeds the download limit.")
      else pure content))
    (fun
      | .storage message => throw (.storage message)
      | .client _ => throw (.storage "S3 configuration read failed."))

variable (sha256Hex : List UInt8 → String) (objects : Objects) (commit : Bool)

/-- `_verify`. -/
def Verified (artifact : ConfigArtifact) (content : List UInt8) : Prop :=
  content.length = artifact.size ∧ sha256Hex content = artifact.rawHash

instance (artifact : ConfigArtifact) (content : List UInt8) :
    Decidable (Verified sha256Hex artifact content) :=
  inferInstanceAs (Decidable (_ ∧ _))

/-- Read the object of an artifact and verify it. -/
def verifyStored (artifact : ConfigArtifact) : Requests Bucket MigrationError Unit := do
  let content ← raiseAs (.storage artifact.pk)
    (get storagePrefix maxObjectBytes fates artifact.storageKey)
  if ¬ Verified sha256Hex artifact content then throw (.integrity artifact.pk) else pure ()

/-- One pass of the loop. -/
def migrateArtifact (artifact : ConfigArtifact) (counts : Counts) :
    Requests Bucket MigrationError Counts :=
  let key := artifact.storageKey
  match localPath key with
  | none => throw (.storage artifact.pk)
  | some path =>
    match objects path with
    | none => pure { counts with missing := counts.missing + 1 }
    | some content =>
      if ¬ Verified sha256Hex artifact content then throw (.integrity artifact.pk)
      else do
        let counts := { counts with verified := counts.verified + 1 }
        if ← raiseAs (.storage artifact.pk) (objectExists etagOf storagePrefix fates key) then
          verifyStored storagePrefix maxObjectBytes fates sha256Hex artifact
          pure { counts with existing := counts.existing + 1 }
        else if commit then
          raiseAs (.storage artifact.pk) (put storagePrefix maxObjectBytes fates key content)
          verifyStored storagePrefix maxObjectBytes fates sha256Hex artifact
          pure { counts with copied := counts.copied + 1 }
        else pure { counts with pending := counts.pending + 1 }

def migrateArtifacts : List ConfigArtifact → Counts → Requests Bucket MigrationError Counts
  | [], counts => pure counts
  | artifact :: rest, counts => do
    let counts ← migrateArtifact etagOf storagePrefix maxObjectBytes fates sha256Hex objects commit
      artifact counts
    migrateArtifacts rest counts

/-- The command, with the artifacts in the order of their keys in the database. -/
def migrateToS3 (artifacts : List ConfigArtifact) : Requests Bucket MigrationError Counts := do
  let counts ← migrateArtifacts etagOf storagePrefix maxObjectBytes fates sha256Hex objects commit
    artifacts ⟨0, 0, 0, 0, 0⟩
  if counts.missing ≠ 0 then throw (.missing counts) else pure counts

end Program

section Triples

variable {ω ε ε' α : Type} {inv pre : ω → Prop} {post : α → ω → Prop} {raised : ω → Prop}

theorem runs_raiseAs {m : Requests ω ε α} {e : ε'} (h : Runs inv pre m post fun _ => raised) :
    Runs inv pre (raiseAs e m) post fun _ => raised := by
  intro c hpassed hc
  have hrun := h c hpassed hc
  unfold raiseAs
  cases hm : m c with
  | ok a d =>
    rw [hm] at hrun
    exact hrun
  | error e d =>
    rw [hm] at hrun
    exact hrun

/-- A request that is answered is judged by its reply. -/
theorem runs_request_answered {fates : ℕ → Fate} (hfates : ∀ n, fates n = .answered) {failure : ε}
    {f : ω → Except ε α × ω} {failed : ε → ω → Prop} (hinv : ∀ w, pre w → inv w)
    (hok : ∀ w a, pre w → (f w).1 = .ok a → post a (f w).2)
    (herror : ∀ w e, pre w → (f w).1 = .error e → failed e (f w).2) :
    Runs inv pre (request fates failure f) post failed := by
  intro c hpassed hc
  have hnext := passed_snoc hpassed (hinv _ hc)
  unfold request
  rw [hfates]
  dsimp only
  cases hreply : (f c.world).1 with
  | ok a => exact ⟨hnext, hok _ a hc hreply⟩
  | error e => exact ⟨hnext, herror _ e hc hreply⟩

variable {storagePrefix key k : String} {maxObjectBytes : ℕ} {fates : ℕ → Fate}
  {content : List UInt8} {inv pre p : Bucket → Prop}

theorem runs_get (hkey : objectKey storagePrefix key = some k) (hinv : ∀ w, pre w → inv w) :
    Runs inv pre (get storagePrefix maxObjectBytes fates key)
      (fun content w => w k = some content ∧ content.length ≤ maxObjectBytes ∧ pre w)
      (fun _ => pre) := by
  have hrequest : Runs inv pre (getObject fates k)
      (fun content w => w k = some content ∧ pre w) (fun _ => pre) := by
    refine runs_request hinv (fun _ hw => hw) (fun w hw => ?_) (fun w content hw hok => ?_)
      fun w e hw herror => ?_
    · cases w k <;> exact hw
    · cases hcontent : w k with
      | none =>
        rw [hcontent] at hok
        cases hok
      | some found =>
        rw [hcontent] at hok
        cases hok
        exact ⟨hcontent, hw⟩
    · cases w k <;> exact hw
  unfold get withKey
  rw [hkey]
  refine Runs.handle (Runs.bind hrequest fun content => ?_) fun e => ?_
  · split
    · exact runs_throw fun w hw => hw.2
    · rename_i hsize
      exact runs_pure fun w hw => ⟨hw.1, Nat.le_of_not_lt hsize, hw.2⟩
  · cases e with
    | client notFound => exact runs_throw fun w hw => hw
    | storage message => exact runs_throw fun w hw => hw

/-- A write that returns has created the object; one that fails may have. -/
theorem runs_put (hkey : objectKey storagePrefix key = some k) (hinv : ∀ w, p w → inv w)
    (hcreate : ∀ w, p w → w k = none → content.length ≤ maxObjectBytes →
      p (Function.update w k (some content))) :
    Runs inv p (put storagePrefix maxObjectBytes fates key content) (fun _ w => p w)
      (fun _ => p) := by
  unfold put withKey
  split
  · exact runs_throw fun w hw => hw
  · rename_i hsize
    rw [hkey]
    have heffect : ∀ w, p w → p (match w k with
        | some _ => ((.error (.client false), w) : Except Raised Unit × Bucket)
        | none => (.ok (), Function.update w k (some content))).2 := by
      intro w hw
      cases hnone : w k with
      | none => exact hcreate w hw hnone (Nat.le_of_not_lt hsize)
      | some found => exact hw
    have hrequest : Runs inv p (putObject fates k content) (fun _ w => p w) (fun _ => p) :=
      runs_request hinv (fun _ hw => hw) heffect (fun w _ hw _ => heffect w hw)
        fun w _ hw _ => heffect w hw
    exact Runs.handle hrequest fun e => runs_throw fun w hw => hw

end Triples

section Safety

variable {etagOf : List UInt8 → String} {storagePrefix : String} {maxObjectBytes : ℕ}
  {fates : ℕ → Fate} {sha256Hex : List UInt8 → String} {objects : Objects} {commit : Bool}
  {artifacts done : List ConfigArtifact} {artifact : ConfigArtifact} {before w : Bucket}
  {k : String} {content : List UInt8}

/-- The object that the migration would write for an artifact. -/
structure Wanted (storagePrefix : String) (maxObjectBytes : ℕ) (sha256Hex : List UInt8 → String)
    (objects : Objects) (artifact : ConfigArtifact) (k : String) (content : List UInt8) : Prop where
  object : objectKey storagePrefix artifact.storageKey = some k
  source : (localPath artifact.storageKey).bind objects = some content
  verified : Verified sha256Hex artifact content
  small : content.length ≤ maxObjectBytes

/-- Objects have been added to the bucket, and nothing else has happened to it. -/
structure Adds (storagePrefix : String) (maxObjectBytes : ℕ) (sha256Hex : List UInt8 → String)
    (objects : Objects) (artifacts : List ConfigArtifact) (before w : Bucket) : Prop where
  kept : ∀ k content, before k = some content → w k = some content
  new : ∀ k, before k = none → w k = none ∨ ∃ artifact ∈ artifacts, ∃ content,
    w k = some content ∧ Wanted storagePrefix maxObjectBytes sha256Hex objects artifact k content

/-- An artifact can be read from the bucket as it is recorded. -/
def Readable (storagePrefix : String) (maxObjectBytes : ℕ) (sha256Hex : List UInt8 → String)
    (artifact : ConfigArtifact) (w : Bucket) : Prop :=
  ∃ k content, objectKey storagePrefix artifact.storageKey = some k ∧ w k = some content ∧
    content.length ≤ maxObjectBytes ∧ Verified sha256Hex artifact content

/-- What is known in the middle of a run. -/
structure Progress (storagePrefix : String) (maxObjectBytes : ℕ) (sha256Hex : List UInt8 → String)
    (objects : Objects) (commit : Bool) (artifacts : List ConfigArtifact) (before : Bucket)
    (done : List ConfigArtifact) (w : Bucket) : Prop where
  adds : Adds storagePrefix maxObjectBytes sha256Hex objects artifacts before w
  dry : commit = false → w = before
  readable : ∀ artifact ∈ done, Readable storagePrefix maxObjectBytes sha256Hex artifact w

theorem Adds.refl : Adds storagePrefix maxObjectBytes sha256Hex objects artifacts before before :=
  ⟨fun _ _ h => h, fun _ h => Or.inl h⟩

theorem Adds.create (h : Adds storagePrefix maxObjectBytes sha256Hex objects artifacts before w)
    (hnone : w k = none) (hmem : artifact ∈ artifacts)
    (hwanted : Wanted storagePrefix maxObjectBytes sha256Hex objects artifact k content) :
    Adds storagePrefix maxObjectBytes sha256Hex objects artifacts before
      (Function.update w k (some content)) := by
  refine ⟨fun other found hfound => ?_, fun other hother => ?_⟩
  · have hkept := h.kept other found hfound
    rw [Function.update_of_ne]
    · exact hkept
    · rintro rfl
      rw [hnone] at hkept
      cases hkept
  · by_cases heq : other = k
    · subst heq
      exact Or.inr ⟨artifact, hmem, content, Function.update_self .., hwanted⟩
    · rw [Function.update_of_ne heq]
      exact h.new other hother

theorem Progress.create (h : Progress storagePrefix maxObjectBytes sha256Hex objects commit
      artifacts before done w) (hcommit : commit = true) (hnone : w k = none)
    (hmem : artifact ∈ artifacts)
    (hwanted : Wanted storagePrefix maxObjectBytes sha256Hex objects artifact k content) :
    Progress storagePrefix maxObjectBytes sha256Hex objects commit artifacts before done
      (Function.update w k (some content)) := by
  refine ⟨h.adds.create hnone hmem hwanted, fun hdry => ?_, fun other hother => ?_⟩
  · rw [hcommit] at hdry
    cases hdry
  · obtain ⟨object, found, hobject, hfound, hrest⟩ := h.readable other hother
    refine ⟨object, found, hobject, ?_, hrest⟩
    rw [Function.update_of_ne]
    · exact hfound
    · rintro rfl
      rw [hnone] at hfound
      cases hfound

theorem runs_verifyStored {inv p : Bucket → Prop}
    (hkey : objectKey storagePrefix artifact.storageKey = some k) (hinv : ∀ w, p w → inv w) :
    Runs inv p (verifyStored storagePrefix maxObjectBytes fates sha256Hex artifact)
      (fun _ w => Readable storagePrefix maxObjectBytes sha256Hex artifact w ∧ p w)
      (fun _ => p) := by
  unfold verifyStored
  refine Runs.bind (runs_raiseAs (runs_get hkey hinv)) fun found => ?_
  split
  · exact runs_throw fun w hw => hw.2.2
  · rename_i hfound
    rw [not_not] at hfound
    exact runs_pure fun w hw => ⟨⟨k, found, hkey, hw.1, hw.2.1, hfound⟩, hw.2.2⟩

/-- A turn of the loop adds the object of its artifact at most, and ends with an artifact that
can be read, or that is missing. -/
theorem runs_migrateArtifact {inv : Bucket → Prop} (hmem : artifact ∈ artifacts) (counts : Counts)
    (hinv : ∀ w, Progress storagePrefix maxObjectBytes sha256Hex objects commit artifacts before
      done w → inv w) :
    Runs inv (Progress storagePrefix maxObjectBytes sha256Hex objects commit artifacts before done)
      (migrateArtifact etagOf storagePrefix maxObjectBytes fates sha256Hex objects commit artifact
        counts)
      (fun counts' w => (counts'.missing = counts.missing + 1 ∨ counts'.missing = counts.missing ∧
          (commit = true → Readable storagePrefix maxObjectBytes sha256Hex artifact w)) ∧
        Progress storagePrefix maxObjectBytes sha256Hex objects commit artifacts before done w)
      (fun _ => Progress storagePrefix maxObjectBytes sha256Hex objects commit artifacts before
        done) := by
  unfold migrateArtifact
  dsimp only
  cases hpath : localPath artifact.storageKey with
  | none => exact runs_throw fun w hw => hw
  | some path =>
    dsimp only
    cases hsource : objects path with
    | none => exact runs_pure fun w hw => ⟨Or.inl rfl, hw⟩
    | some content =>
      dsimp only
      split
      · exact runs_throw fun w hw => hw
      rename_i hverified
      rw [not_not] at hverified
      obtain ⟨k, hkey⟩ : ∃ k, objectKey storagePrefix artifact.storageKey = some k :=
        Option.isSome_iff_exists.mp (isSome_objectKey.trans (isSome_validateKey hpath))
      refine Runs.bind (runs_raiseAs (runs_objectExists hkey hinv)) fun found => ?_
      cases found with
      | true =>
        rw [if_pos rfl]
        refine Runs.bind ((runs_verifyStored hkey hinv).weaken fun w hw => hw.2) fun _ => ?_
        exact runs_pure fun w hw => ⟨Or.inr ⟨rfl, fun _ => hw.1⟩, hw.2⟩
      | false =>
        rw [if_neg Bool.false_ne_true]
        by_cases hcommit : commit = true
        · rw [if_pos hcommit]
          refine Runs.bind (runs_raiseAs ((runs_put hkey hinv fun w hw hnone hsize =>
            hw.create hcommit hnone hmem ⟨hkey, ?_, hverified, hsize⟩).weaken fun w hw => hw.2))
              fun _ => ?_
          · rw [hpath]
            exact hsource
          refine Runs.bind (runs_verifyStored hkey hinv) fun _ => ?_
          exact runs_pure fun w hw => ⟨Or.inr ⟨rfl, fun _ => hw.1⟩, hw.2⟩
        · rw [if_neg hcommit]
          exact runs_pure fun w hw => ⟨Or.inr ⟨rfl, fun h => absurd h hcommit⟩, hw.2⟩

/-- The loop leaves every artifact readable that it has not counted as missing. -/
theorem runs_migrateArtifacts {inv : Bucket → Prop} {rest : List ConfigArtifact}
    (hrest : rest ⊆ artifacts) (counts : Counts)
    (hinv : ∀ done w, Progress storagePrefix maxObjectBytes sha256Hex objects commit artifacts
      before done w → inv w) :
    Runs inv (Progress storagePrefix maxObjectBytes sha256Hex objects commit artifacts before done)
      (migrateArtifacts etagOf storagePrefix maxObjectBytes fates sha256Hex objects commit rest
        counts)
      (fun counts' w => counts.missing ≤ counts'.missing ∧
        (counts'.missing = counts.missing → commit = true → ∀ artifact ∈ rest,
          Readable storagePrefix maxObjectBytes sha256Hex artifact w) ∧
        Progress storagePrefix maxObjectBytes sha256Hex objects commit artifacts before done w)
      (fun _ => Progress storagePrefix maxObjectBytes sha256Hex objects commit artifacts before
        []) := by
  induction rest generalizing done counts with
  | nil =>
    exact runs_pure fun w hw => ⟨le_rfl, fun _ _ _ h => absurd h List.not_mem_nil, hw⟩
  | cons artifact rest ih =>
    have hsub : rest ⊆ artifacts := fun other h => hrest (List.mem_cons_of_mem _ h)
    unfold migrateArtifacts
    refine Runs.bind ((runs_migrateArtifact (hrest List.mem_cons_self) counts (hinv done)).mono
      (fun _ _ hw => hw) fun _ w hw => ⟨hw.adds, hw.dry, fun _ h => absurd h List.not_mem_nil⟩)
        fun next => ?_
    by_cases hmissing : next.missing = counts.missing
    · by_cases hcommit : commit = true
      · refine ((@ih (artifact :: done) hsub next).weaken fun w hw =>
          ⟨hw.2.adds, hw.2.dry, ?_⟩).mono (fun counts' w hw => ?_) fun _ _ hw => hw
        · intro other hother
          rcases List.mem_cons.mp hother with rfl | hother
          · rcases hw.1 with hmore | ⟨-, hread⟩
            · omega
            · exact hread hcommit
          · exact hw.2.readable other hother
        · obtain ⟨hle, hread, hprogress⟩ := hw
          refine ⟨hmissing ▸ hle, fun hsame _ other hother => ?_, hprogress.adds, hprogress.dry,
            fun other hother => hprogress.readable other (List.mem_cons_of_mem _ hother)⟩
          rcases List.mem_cons.mp hother with rfl | hother
          · exact hprogress.readable other List.mem_cons_self
          · exact hread (hsame.trans hmissing.symm) hcommit other hother
      · exact ((ih hsub next).weaken fun w hw => hw.2).mono
          (fun counts' w hw => ⟨hmissing ▸ hw.1, fun _ h => absurd h hcommit, hw.2.2⟩)
          fun _ _ hw => hw
    · refine (Runs.assume fun hmore : next.missing = counts.missing + 1 =>
        (ih hsub next).mono (fun counts' w hw => ⟨?_, fun hsame => ?_, hw.2.2⟩)
          fun _ _ hw => hw).weaken fun w hw => ⟨hw.1.resolve_right fun h => hmissing h.1, hw.2⟩
      · have hle := hw.1
        omega
      · have hle := hw.1
        omega

theorem runs_migrateToS3 {inv : Bucket → Prop}
    (hinv : ∀ done w, Progress storagePrefix maxObjectBytes sha256Hex objects commit artifacts
      before done w → inv w) :
    Runs inv (Progress storagePrefix maxObjectBytes sha256Hex objects commit artifacts before [])
      (migrateToS3 etagOf storagePrefix maxObjectBytes fates sha256Hex objects commit artifacts)
      (fun _ w => (commit = true → ∀ artifact ∈ artifacts,
          Readable storagePrefix maxObjectBytes sha256Hex artifact w) ∧
        Progress storagePrefix maxObjectBytes sha256Hex objects commit artifacts before [] w)
      (fun _ => Progress storagePrefix maxObjectBytes sha256Hex objects commit artifacts before
        []) := by
  unfold migrateToS3
  refine Runs.bind (runs_migrateArtifacts (List.Subset.refl _) ⟨0, 0, 0, 0, 0⟩ hinv)
    fun counts => ?_
  split
  · exact runs_throw fun w hw => hw.2.2
  · rename_i hmissing
    rw [not_not] at hmissing
    exact runs_pure fun w hw => ⟨hw.2.1 hmissing, hw.2.2⟩

theorem progress_start : Progress storagePrefix maxObjectBytes sha256Hex objects commit artifacts
    before [] before :=
  ⟨.refl, fun _ => rfl, fun _ h => absurd h List.not_mem_nil⟩

theorem progress_of_moment (h : Moment (migrateToS3 etagOf storagePrefix maxObjectBytes fates
      sha256Hex objects commit artifacts) before w) :
    Adds storagePrefix maxObjectBytes sha256Hex objects artifacts before w ∧
      (commit = false → w = before) :=
  (@runs_migrateToS3 etagOf storagePrefix maxObjectBytes fates sha256Hex objects commit artifacts
    before (fun w => Adds storagePrefix maxObjectBytes sha256Hex objects artifacts before w ∧
      (commit = false → w = before)) fun _ _ hw => ⟨hw.adds, hw.dry⟩).moment progress_start
    (fun _ _ hw => ⟨hw.2.adds, hw.2.dry⟩) (fun _ _ hw => ⟨hw.adds, hw.dry⟩) h

/-- Whatever happens to the requests of a run, at every moment of it objects have only been
added, each a verified file of an artifact, and none in a dry run; a committed run that returns
has made every artifact readable. -/
theorem migration_only_adds (artifacts : List ConfigArtifact) (before : Bucket) :
    (∀ w, Moment (migrateToS3 etagOf storagePrefix maxObjectBytes fates sha256Hex objects commit
        artifacts) before w →
      Adds storagePrefix maxObjectBytes sha256Hex objects artifacts before w ∧
        (commit = false → w = before)) ∧
    ∀ counts d, migrateToS3 etagOf storagePrefix maxObjectBytes fates sha256Hex objects commit
        artifacts ⟨before, []⟩ = .ok counts d → commit = true →
      ∀ artifact ∈ artifacts, Readable storagePrefix maxObjectBytes sha256Hex artifact d.world :=
  ⟨fun _ => progress_of_moment, fun _ _ hreturned hcommit =>
    ((@runs_migrateToS3 etagOf storagePrefix maxObjectBytes fates sha256Hex objects commit
      artifacts before (fun _ => True) fun _ _ _ => trivial).result progress_start
        hreturned).1 hcommit⟩

end Safety

section Resumption

variable {etagOf : List UInt8 → String} {storagePrefix : String} {maxObjectBytes : ℕ}
  {fates : ℕ → Fate} {sha256Hex : List UInt8 → String} {objects : Objects}
  {artifacts : List ConfigArtifact} {artifact : ConfigArtifact} {before w : Bucket} {k : String}
  {content : List UInt8} {inv p : Bucket → Prop}

/-- An artifact has no file in the local storage. -/
def Missing (objects : Objects) (artifact : ConfigArtifact) : Prop :=
  ∃ path, localPath artifact.storageKey = some path ∧ objects path = none

/-- The file of an artifact is as recorded, and so is its object, or the file can be written. -/
structure Ready (storagePrefix : String) (maxObjectBytes : ℕ) (sha256Hex : List UInt8 → String)
    (objects : Objects) (artifact : ConfigArtifact) (w : Bucket) : Prop where
  source : ∃ content, (localPath artifact.storageKey).bind objects = some content ∧
    Verified sha256Hex artifact content ∧ ∀ k,
      objectKey storagePrefix artifact.storageKey = some k → w k = none →
        content.length ≤ maxObjectBytes
  object : ∀ k found, objectKey storagePrefix artifact.storageKey = some k → w k = some found →
    found.length ≤ maxObjectBytes ∧ Verified sha256Hex artifact found

theorem localPath_of_object {key : String} (h : objectKey storagePrefix key = some k) :
    localPath key = if PosixPaths.components key.toList = [] then none
      else some (PosixPaths.components key.toList) := by
  obtain ⟨logical, hlogical, -⟩ := objectKey_eq_some h
  unfold validateKey at hlogical
  dsimp only at hlogical
  split at hlogical
  · cases hlogical
  rename_i hvalid
  rw [not_or, not_or, not_or, List.contains_iff_mem] at hvalid
  obtain ⟨-, hbackslash, hhead, hparents⟩ := hvalid
  unfold localPath
  dsimp only
  change (if _ ∨ _ ∨ ['.', '.'] ∈ PosixPaths.components key.toList ∨
    PosixPaths.components key.toList = [] then none
      else some (PosixPaths.components key.toList)) = _
  simp only [hbackslash, hhead, hparents, false_or]

/-- One object is one file, however its key is spelled. -/
theorem source_eq {other : ConfigArtifact}
    (h : objectKey storagePrefix artifact.storageKey = some k)
    (h' : objectKey storagePrefix other.storageKey = some k) :
    localPath artifact.storageKey = localPath other.storageKey := by
  rw [localPath_of_object h, localPath_of_object h', (objectKey_eq_iff h h').mp rfl]

theorem ready_iff (hadds : Adds storagePrefix maxObjectBytes sha256Hex objects artifacts before w) :
    Ready storagePrefix maxObjectBytes sha256Hex objects artifact before ↔
      Ready storagePrefix maxObjectBytes sha256Hex objects artifact w := by
  constructor
  · intro h
    obtain ⟨content, hcontent, hverified, hsmall⟩ := h.source
    refine ⟨⟨content, hcontent, hverified, fun k hkey hnone => ?_⟩, fun k found hkey hfound => ?_⟩
    · cases hold : before k with
      | none => exact hsmall k hkey hold
      | some found =>
        rw [hadds.kept k found hold] at hnone
        cases hnone
    · cases hold : before k with
      | some other =>
        rw [hadds.kept k other hold] at hfound
        obtain rfl := Option.some.inj hfound
        exact h.object k other hkey hold
      | none =>
        rcases hadds.new k hold with hnone | ⟨other, -, written, hwritten, hwanted⟩
        · rw [hnone] at hfound
          cases hfound
        · rw [hfound] at hwritten
          obtain rfl := Option.some.inj hwritten
          have hsource := hwanted.source
          rw [← source_eq hkey hwanted.object, hcontent] at hsource
          obtain rfl := Option.some.inj hsource
          exact ⟨hwanted.small, hverified⟩
  · intro h
    obtain ⟨content, hcontent, hverified, hsmall⟩ := h.source
    refine ⟨⟨content, hcontent, hverified, fun k hkey hnone => ?_⟩, fun k found hkey hfound =>
      h.object k found hkey (hadds.kept k found hfound)⟩
    rcases hadds.new k hnone with hstill | ⟨other, -, written, -, hwanted⟩
    · exact hsmall k hkey hstill
    · have hsource := hwanted.source
      rw [← source_eq hkey hwanted.object, hcontent] at hsource
      obtain rfl := Option.some.inj hsource
      exact hwanted.small

theorem Adds.trans {v : Bucket}
    (h : Adds storagePrefix maxObjectBytes sha256Hex objects artifacts before w)
    (h' : Adds storagePrefix maxObjectBytes sha256Hex objects artifacts w v) :
    Adds storagePrefix maxObjectBytes sha256Hex objects artifacts before v := by
  refine ⟨fun k content hcontent => h'.kept k content (h.kept k content hcontent),
    fun k hnone => ?_⟩
  rcases h.new k hnone with hstill | ⟨artifact, hmem, content, hcontent, hwanted⟩
  · exact h'.new k hstill
  · exact Or.inr ⟨artifact, hmem, content, h'.kept k content hcontent, hwanted⟩

theorem runs_get_answered (hfates : ∀ n, fates n = .answered) {key : String}
    (hkey : objectKey storagePrefix key = some k) (hinv : ∀ w, p w → inv w) :
    Runs inv p (get storagePrefix maxObjectBytes fates key)
      (fun content w => w k = some content ∧ content.length ≤ maxObjectBytes ∧ p w)
      (fun _ w => (∀ content, w k = some content → maxObjectBytes < content.length) ∧ p w) := by
  have hrequest : Runs inv p (getObject fates k) (fun content w => w k = some content ∧ p w)
      (fun _ w => w k = none ∧ p w) := by
    refine runs_request_answered hfates hinv (fun w content hw hok => ?_) fun w e hw herror => ?_
    · cases hcontent : w k with
      | none =>
        rw [hcontent] at hok
        cases hok
      | some found =>
        rw [hcontent] at hok
        exact ⟨hcontent.trans (congrArg some (Except.ok.inj hok)), hw⟩
    · cases hcontent : w k with
      | none => exact ⟨hcontent, hw⟩
      | some found =>
        rw [hcontent] at herror
        cases herror
  unfold get withKey
  rw [hkey]
  refine Runs.handle ((Runs.bind (hrequest.mono (fun _ _ hw => hw) fun _ w hw =>
    (⟨fun content hcontent => ?_, hw.2⟩ : (∀ content, w k = some content →
      maxObjectBytes < content.length) ∧ p w)) fun content => ?_)) fun e => ?_
  · rw [hw.1] at hcontent
    cases hcontent
  · split
    · rename_i hsize
      refine runs_throw fun w hw => ⟨fun found hfound => ?_, hw.2⟩
      rw [hw.1] at hfound
      rw [← Option.some.inj hfound]
      exact hsize
    · rename_i hsize
      exact runs_pure fun w hw => ⟨hw.1, Nat.le_of_not_lt hsize, hw.2⟩
  · cases e with
    | client notFound => exact runs_throw fun w hw => hw
    | storage message => exact runs_throw fun w hw => hw

/-- A write to a free key fails only if the object is too large. -/
theorem runs_put_answered (hfates : ∀ n, fates n = .answered) {key : String}
    (hkey : objectKey storagePrefix key = some k) (hinv : ∀ w, p w → inv w)
    (hcreate : ∀ w, p w → w k = none → content.length ≤ maxObjectBytes →
      p (Function.update w k (some content))) :
    Runs inv (fun w => w k = none ∧ p w) (put storagePrefix maxObjectBytes fates key content)
      (fun _ w => w k = some content ∧ content.length ≤ maxObjectBytes ∧ p w)
      (fun _ w => (w k = none ∧ maxObjectBytes < content.length) ∧ p w) := by
  unfold put withKey
  split
  · rename_i hsize
    exact runs_throw fun w hw => ⟨⟨hw.1, hsize⟩, hw.2⟩
  · rename_i hsize
    rw [hkey]
    have hrequest : Runs inv (fun w => w k = none ∧ p w) (putObject fates k content)
        (fun _ w => w k = some content ∧ content.length ≤ maxObjectBytes ∧ p w)
        (fun _ _ => False) := by
      refine runs_request_answered hfates (fun w hw => hinv w hw.2) (fun w u hw hok => ?_)
        fun w e hw herror => ?_
      · rw [hw.1]
        exact ⟨Function.update_self .., Nat.le_of_not_lt hsize,
          hcreate w hw.2 hw.1 (Nat.le_of_not_lt hsize)⟩
      · rw [hw.1] at herror
        cases herror
    exact Runs.handle hrequest fun e => runs_absurd

theorem runs_objectExists_answered (hfates : ∀ n, fates n = .answered) {key : String}
    (hkey : objectKey storagePrefix key = some k) (hinv : ∀ w, p w → inv w) :
    Runs inv p (objectExists etagOf storagePrefix fates key)
      (fun found w => found = (w k).isSome ∧ p w) (fun _ _ => False) := by
  intro c hpassed hc
  rw [objectExists_eq hkey, if_pos (hfates _)]
  exact ⟨passed_snoc hpassed (hinv _ hc), rfl, hc⟩

theorem runs_verifyStored_answered (hfates : ∀ n, fates n = .answered)
    (hkey : objectKey storagePrefix artifact.storageKey = some k) (hinv : ∀ w, p w → inv w) :
    Runs inv p (verifyStored storagePrefix maxObjectBytes fates sha256Hex artifact)
      (fun _ w => (∃ content, w k = some content ∧ content.length ≤ maxObjectBytes ∧
        Verified sha256Hex artifact content) ∧ p w)
      (fun _ w => (∀ content, w k = some content → content.length ≤ maxObjectBytes →
        ¬ Verified sha256Hex artifact content) ∧ p w) := by
  unfold verifyStored
  refine Runs.bind (runs_raiseAs ((runs_get_answered hfates hkey hinv).mono (fun _ _ hw => hw)
    fun _ w hw => (⟨fun content hcontent hsize => ?_, hw.2⟩ : (∀ content, w k = some content →
      content.length ≤ maxObjectBytes → ¬ Verified sha256Hex artifact content) ∧ p w)))
      fun found => ?_
  · exact absurd (hw.1 content hcontent) (Nat.not_lt.mpr hsize)
  · split
    · rename_i hfound
      refine runs_throw fun w hw => ⟨fun content hcontent _ => ?_, hw.2.2⟩
      rw [hw.1] at hcontent
      rw [← Option.some.inj hcontent]
      exact hfound
    · rename_i hfound
      rw [not_not] at hfound
      exact runs_pure fun w hw => ⟨⟨found, hw.1, hw.2.1, hfound⟩, hw.2.2⟩

/-- With a service that answers, a committed turn ends with a missing file or with an artifact
that was ready. -/
theorem runs_migrateArtifact_answered (hfates : ∀ n, fates n = .answered)
    (hmem : artifact ∈ artifacts) (counts : Counts) :
    Runs (fun _ => True) (Adds storagePrefix maxObjectBytes sha256Hex objects artifacts before)
      (migrateArtifact etagOf storagePrefix maxObjectBytes fates sha256Hex objects true artifact
        counts)
      (fun counts' w => (Missing objects artifact ∧ counts'.missing = counts.missing + 1 ∨
          Ready storagePrefix maxObjectBytes sha256Hex objects artifact before ∧
            counts'.missing = counts.missing) ∧
        Adds storagePrefix maxObjectBytes sha256Hex objects artifacts before w)
      (fun _ _ => ¬ Ready storagePrefix maxObjectBytes sha256Hex objects artifact before) := by
  unfold migrateArtifact
  dsimp only
  cases hpath : localPath artifact.storageKey with
  | none =>
    refine runs_throw fun w hw h => ?_
    obtain ⟨content, hcontent, -⟩ := h.source
    rw [hpath] at hcontent
    cases hcontent
  | some path =>
    dsimp only
    cases hsource : objects path with
    | none => exact runs_pure fun w hw => ⟨Or.inl ⟨⟨path, hpath, hsource⟩, rfl⟩, hw⟩
    | some content =>
      have hfile : (localPath artifact.storageKey).bind objects = some content := by
        rw [hpath]
        exact hsource
      dsimp only
      split
      · rename_i hverified
        refine runs_throw fun w hw h => hverified ?_
        obtain ⟨other, hother, hrest, -⟩ := h.source
        rw [hfile] at hother
        rw [Option.some.inj hother]
        exact hrest
      rename_i hverified
      rw [not_not] at hverified
      obtain ⟨k, hkey⟩ : ∃ k, objectKey storagePrefix artifact.storageKey = some k :=
        Option.isSome_iff_exists.mp (isSome_objectKey.trans (isSome_validateKey hpath))
      refine Runs.bind (runs_raiseAs ((runs_objectExists_answered hfates hkey
        (fun _ _ => trivial)).mono (fun _ _ hw => hw) fun _ _ hw => hw.elim)) fun found => ?_
      cases found with
      | true =>
        rw [if_pos rfl]
        have hverify := @runs_verifyStored_answered storagePrefix maxObjectBytes fates sha256Hex
          artifact k (fun _ => True) (fun w => true = (w k).isSome ∧
            Adds storagePrefix maxObjectBytes sha256Hex objects artifacts before w) hfates hkey
          fun _ _ => trivial
        refine Runs.bind (hverify.mono (fun _ _ hw => hw) fun _ w hw hready => ?_) fun _ => ?_
        · obtain ⟨hunverified, hsome, hadds⟩ := hw
          obtain ⟨found, hfound⟩ := Option.isSome_iff_exists.mp hsome.symm
          obtain ⟨hsmall, hgood⟩ := ((ready_iff hadds).mp hready).object k found hkey hfound
          exact hunverified found hfound hsmall hgood
        · refine runs_pure fun w hw => ⟨Or.inr ⟨?_, rfl⟩, hw.2.2⟩
          obtain ⟨⟨found, hfound, hsmall, hgood⟩, -, hadds⟩ := hw
          refine (ready_iff hadds).mpr ⟨⟨content, hfile, hverified, fun other hother hnone => ?_⟩,
            fun other again hother hagain => ?_⟩
          · rw [Option.some.inj (hother.symm.trans hkey), hfound] at hnone
            cases hnone
          · rw [Option.some.inj (hother.symm.trans hkey), hfound] at hagain
            obtain rfl := Option.some.inj hagain
            exact ⟨hsmall, hgood⟩
      | false =>
        rw [if_neg Bool.false_ne_true, if_pos rfl]
        have hput := @runs_put_answered storagePrefix maxObjectBytes fates k content
          (fun _ => True) (fun w => before k = none ∧
            Adds storagePrefix maxObjectBytes sha256Hex objects artifacts before w) hfates
          artifact.storageKey hkey (fun _ _ => trivial) fun w hw hnone hsize =>
            ⟨hw.1, hw.2.create hnone hmem ⟨hkey, hfile, hverified, hsize⟩⟩
        refine Runs.bind ((runs_raiseAs hput).weaken (fun w hw => ?_) |>.mono (fun _ _ hw => hw)
          fun _ w hw hready => ?_) fun _ => ?_
        · have hnone : w k = none :=
            Option.isNone_iff_eq_none.mp (Option.isSome_eq_false_iff.mp hw.1.symm)
          refine ⟨hnone, ?_, hw.2⟩
          cases hold : before k with
          | none => rfl
          | some old =>
            rw [hw.2.kept k old hold] at hnone
            cases hnone
        · obtain ⟨⟨-, hlarge⟩, hold, -⟩ := hw
          obtain ⟨other, hother, -, hsmall⟩ := hready.source
          rw [hfile] at hother
          rw [← Option.some.inj hother] at hsmall
          exact absurd (hsmall k hkey hold) (Nat.not_le.mpr hlarge)
        have hverify := @runs_verifyStored_answered storagePrefix maxObjectBytes fates sha256Hex
          artifact k (fun _ => True) (fun w => w k = some content ∧
            content.length ≤ maxObjectBytes ∧ before k = none ∧
              Adds storagePrefix maxObjectBytes sha256Hex objects artifacts before w) hfates hkey
          fun _ _ => trivial
        refine Runs.bind (hverify.mono (fun _ _ hw => hw) fun _ w hw => ?_) fun _ => ?_
        · exact absurd hverified (hw.1 content hw.2.1 hw.2.2.1)
        · refine runs_pure fun w hw => ⟨Or.inr ⟨?_, rfl⟩, hw.2.2.2.2⟩
          obtain ⟨-, -, hsmall, hold, -⟩ := hw
          refine ⟨⟨content, hfile, hverified, fun _ _ _ => hsmall⟩,
            fun other found hother hfound => ?_⟩
          rw [Option.some.inj (hother.symm.trans hkey), hold] at hfound
          cases hfound

theorem Missing.not_ready (h : Missing objects artifact) :
    ¬ Ready storagePrefix maxObjectBytes sha256Hex objects artifact before := by
  intro hready
  obtain ⟨path, hpath, hnone⟩ := h
  obtain ⟨content, hcontent, -⟩ := hready.source
  rw [hpath] at hcontent
  exact absurd (hnone.symm.trans hcontent) nofun

/-- With a service that answers, a committed loop ends where an artifact is not ready, or with
the missing ones counted. -/
theorem runs_migrateArtifacts_answered (hfates : ∀ n, fates n = .answered)
    {rest : List ConfigArtifact} (hrest : rest ⊆ artifacts) (counts : Counts) :
    Runs (fun _ => True) (Adds storagePrefix maxObjectBytes sha256Hex objects artifacts before)
      (migrateArtifacts etagOf storagePrefix maxObjectBytes fates sha256Hex objects true rest
        counts)
      (fun counts' w => (counts.missing ≤ counts'.missing ∧
          (counts'.missing = counts.missing → ∀ artifact ∈ rest,
            Ready storagePrefix maxObjectBytes sha256Hex objects artifact before) ∧
          (counts'.missing ≠ counts.missing → ∃ artifact ∈ rest, Missing objects artifact)) ∧
        Adds storagePrefix maxObjectBytes sha256Hex objects artifacts before w)
      (fun _ _ => ∃ artifact ∈ rest,
        ¬ Ready storagePrefix maxObjectBytes sha256Hex objects artifact before) := by
  induction rest generalizing counts with
  | nil =>
    exact runs_pure fun w hw => ⟨⟨le_rfl, fun _ _ h => absurd h List.not_mem_nil,
      fun h => absurd rfl h⟩, hw⟩
  | cons artifact rest ih =>
    have hsub : rest ⊆ artifacts := fun other h => hrest (List.mem_cons_of_mem _ h)
    unfold migrateArtifacts
    refine Runs.bind ((runs_migrateArtifact_answered hfates (hrest List.mem_cons_self) counts).mono
      (fun _ _ hw => hw) fun _ w hw => ⟨artifact, List.mem_cons_self, hw⟩) fun next => ?_
    refine Runs.assume fun hturn => ((ih hsub next).mono (fun counts' w hw => ⟨?_, hw.2⟩)
      fun _ w hw => ?_)
    · obtain ⟨⟨hle, hready, hmissing⟩, -⟩ := hw
      rcases hturn with ⟨hgone, hmore⟩ | ⟨hown, hsame⟩
      · refine ⟨by omega, fun h => by omega, fun _ => ⟨artifact, List.mem_cons_self, hgone⟩⟩
      · rw [hsame] at hle hready hmissing
        refine ⟨hle, fun h other hother => ?_, fun h => ?_⟩
        · rcases List.mem_cons.mp hother with rfl | hother
          · exact hown
          · exact hready h other hother
        · obtain ⟨other, hother, hgone⟩ := hmissing h
          exact ⟨other, List.mem_cons_of_mem _ hother, hgone⟩
    · obtain ⟨other, hother, hunready⟩ := hw
      exact ⟨other, List.mem_cons_of_mem _ hother, hunready⟩

/-- The bucket after a complete migration. -/
def migrated (storagePrefix : String) (objects : Objects) (artifacts : List ConfigArtifact)
    (before : Bucket) : Bucket := fun k =>
  (before k).or (artifacts.findSome? fun artifact =>
    if objectKey storagePrefix artifact.storageKey = some k then
      (localPath artifact.storageKey).bind objects
    else none)

theorem eq_migrated
    (hadds : Adds storagePrefix maxObjectBytes sha256Hex objects artifacts before w)
    (hread : ∀ artifact ∈ artifacts, Readable storagePrefix maxObjectBytes sha256Hex artifact w) :
    w = migrated storagePrefix objects artifacts before := by
  funext k
  unfold migrated
  cases hold : before k with
  | some content => exact hadds.kept k content hold
  | none =>
    rw [Option.none_or]
    rcases hadds.new k hold with hnone | ⟨artifact, hmem, content, hcontent, hwanted⟩
    · rw [hnone, eq_comm, List.findSome?_eq_none_iff]
      intro artifact hmem
      rw [if_neg]
      intro hkey
      obtain ⟨other, content, hother, hcontent, -⟩ := hread artifact hmem
      rw [Option.some.inj (hother.symm.trans hkey), hnone] at hcontent
      cases hcontent
    · rw [hcontent, eq_comm]
      -- every artifact of the object has the same file
      have hsame : ∀ other ∈ artifacts, (if objectKey storagePrefix other.storageKey = some k then
          (localPath other.storageKey).bind objects else none) = none ∨
          (if objectKey storagePrefix other.storageKey = some k then
            (localPath other.storageKey).bind objects else none) = some content := by
        intro other _
        split
        · rename_i hkey
          rw [source_eq hkey hwanted.object]
          exact Or.inr hwanted.source
        · exact Or.inl rfl
      have hown : (if objectKey storagePrefix artifact.storageKey = some k then
          (localPath artifact.storageKey).bind objects else none) = some content := by
        rw [if_pos hwanted.object]
        exact hwanted.source
      cases hfound : artifacts.findSome? fun artifact =>
          if objectKey storagePrefix artifact.storageKey = some k then
            (localPath artifact.storageKey).bind objects else none with
      | none =>
        rw [List.findSome?_eq_none_iff.mp hfound artifact hmem] at hown
        cases hown
      | some found =>
        obtain ⟨other, hother, hsome⟩ := List.exists_of_findSome?_eq_some hfound
        rcases hsame other hother with hnone | hcontent'
        · rw [hnone] at hsome
          cases hsome
        · exact hsome.symm.trans hcontent'

/-- However often a migration has been interrupted, over whatever connections and in between dry
runs, a committed run over a service that answers returns exactly when every artifact was ready
at first, and leaves what an uninterrupted one leaves. -/
theorem migration_resumes (hfates : ∀ n, fates n = .answered)
    (hruns : Relation.ReflTransGen (fun b b' => ∃ fates' commit, Moment (migrateToS3 etagOf
      storagePrefix maxObjectBytes fates' sha256Hex objects commit artifacts) b b') before w) :
    match migrateToS3 etagOf storagePrefix maxObjectBytes fates sha256Hex objects true artifacts
        ⟨w, []⟩ with
    | .ok _ d => (∀ artifact ∈ artifacts,
          Ready storagePrefix maxObjectBytes sha256Hex objects artifact before) ∧
        d.world = migrated storagePrefix objects artifacts before
    | .error _ _ => ∃ artifact ∈ artifacts,
        ¬ Ready storagePrefix maxObjectBytes sha256Hex objects artifact before := by
  have hadds : Adds storagePrefix maxObjectBytes sha256Hex objects artifacts before w := by
    induction hruns with
    | refl => exact .refl
    | tail _ hmoment ih =>
      obtain ⟨fates', commit, hmoment⟩ := hmoment
      exact ih.trans (progress_of_moment hmoment).1
  have hrun : Runs (fun _ => True)
      (Adds storagePrefix maxObjectBytes sha256Hex objects artifacts before)
      (migrateToS3 etagOf storagePrefix maxObjectBytes fates sha256Hex objects true artifacts)
      (fun _ w => (∀ artifact ∈ artifacts,
          Ready storagePrefix maxObjectBytes sha256Hex objects artifact before) ∧
        Adds storagePrefix maxObjectBytes sha256Hex objects artifacts before w)
      (fun _ _ => ∃ artifact ∈ artifacts,
        ¬ Ready storagePrefix maxObjectBytes sha256Hex objects artifact before) := by
    unfold migrateToS3
    refine Runs.bind (runs_migrateArtifacts_answered hfates (List.Subset.refl _) ⟨0, 0, 0, 0, 0⟩)
      fun counts => ?_
    split
    · rename_i hmissing
      refine runs_throw fun v hv => ?_
      obtain ⟨artifact, hmem, hgone⟩ := hv.1.2.2 hmissing
      exact ⟨artifact, hmem, hgone.not_ready⟩
    · rename_i hmissing
      rw [not_not] at hmissing
      exact runs_pure fun v hv => ⟨hv.1.2.1 hmissing, hv.2⟩
  have hread := @runs_migrateToS3 etagOf storagePrefix maxObjectBytes fates sha256Hex objects true
    artifacts w (fun _ => True) (fun _ _ _ => trivial) ⟨w, []⟩ nofun progress_start
  have hend := hrun ⟨w, []⟩ nofun hadds
  cases hresult : migrateToS3 etagOf storagePrefix maxObjectBytes fates sha256Hex objects true
      artifacts ⟨w, []⟩ with
  | ok counts d =>
    rw [hresult] at hread hend
    exact ⟨hend.2.1, eq_migrated hend.2.2 (hread.2.1 rfl)⟩
  | error e d =>
    rw [hresult] at hend
    exact hend.2

/-- One file that is to be migrated. -/
def exampleArtifact : ConfigArtifact where
  pk := 1
  revision := 1
  artifactType := "running"
  format := "text"
  storageKey := "devices/7/revisions/r/running.txt"
  size := 1
  rawHash := "ca978112ca1bbdcafac231b39a23dc4da786eff8147c4e72b9807785afee48bb"
  normalizedHash := ""
  isPrimary := true
  localAvailable := true
  localDeletedAt := none

def exampleObjects : Objects := fun path =>
  if path = ["devices".toList, "7".toList, "revisions".toList, "r".toList, "running.txt".toList]
  then some [97] else none

def exampleDigest (content : List UInt8) : String :=
  if content = [97] then "ca978112ca1bbdcafac231b39a23dc4da786eff8147c4e72b9807785afee48bb" else ""

/-- The second request takes effect, but its reply is lost. -/
def lostReply (n : ℕ) : Fate := if n = 1 then .unanswered else .answered

/-- The reply to a write was lost, and the migration is run again. -/
theorem migration_resumes_example : ∃ e d,
    migrateToS3 (fun _ => "") "backups" 16 lostReply exampleDigest exampleObjects true
      [exampleArtifact] ⟨fun _ => none, []⟩ = .error e d ∧
    match migrateToS3 (fun _ => "") "backups" 16 (fun _ => .answered) exampleDigest exampleObjects
        true [exampleArtifact] ⟨d.world, []⟩ with
    | .ok _ d' => (∀ artifact ∈ [exampleArtifact],
          Ready "backups" 16 exampleDigest exampleObjects artifact fun _ => none) ∧
        d'.world = migrated "backups" exampleObjects [exampleArtifact] fun _ => none
    | .error _ _ => ∃ artifact ∈ [exampleArtifact],
        ¬ Ready "backups" 16 exampleDigest exampleObjects artifact fun _ => none := by
  have hfailed : (match migrateToS3 (fun _ => "") "backups" 16
      lostReply exampleDigest exampleObjects true
      [exampleArtifact] ⟨fun _ => none, []⟩ with
    | .ok _ _ => false
    | .error _ d => d.world "backups/devices/7/revisions/r/running.txt" == some [97]) = true := by
    decide +kernel
  cases hrun : migrateToS3 (fun _ => "") "backups" 16
      lostReply exampleDigest exampleObjects true
      [exampleArtifact] ⟨fun _ => none, []⟩ with
  | ok counts d =>
    rw [hrun] at hfailed
    cases hfailed
  | error e d =>
    refine ⟨e, d, rfl, migration_resumes (fun _ => rfl) (.single ⟨lostReply, true, ?_⟩)⟩
    unfold Moment
    rw [hrun]
    exact Or.inr rfl

end Resumption

end ConfigBackup.StorageMigration
