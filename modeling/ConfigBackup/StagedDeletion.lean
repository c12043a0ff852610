import ConfigBackup.ExceptLoops
import ConfigBackup.LocalStorage
import ConfigBackup.Transactions

/-!
Deletions that stage local files in a quarantine before they commit. When anything
raises, the staged files are restored in reverse order and the transaction is undone;
after the commit they are purged. The deletion engines are instances.
-/

namespace ConfigBackup.StagedDeletion

open ExceptLoops LocalStorage Transactions

/-- The files, the staged ones with their quarantine keys, and the remote copies whose
deletion was asked for. -/
structure StagedWorld where
  objects : Objects
  staged : List (String × String)
  calls : List ℕ

/-- Which statements, stagings and commits raise, and which restores and purges do. -/
structure DeletionFaults where
  call : ℕ → Bool
  restore : ℕ → Bool
  purge : ℕ → Bool

variable {δ ε α : Type}

section Staging

/-- Stage one key; whether there was a file. -/
def stageKey (fails : ℕ → Bool) (failure : ε) (ns key : String) : Program δ StagedWorld ε Bool :=
  action fails failure (fun w =>
    match stageDelete ns key w.objects with
    | .error _ => .error failure
    | .ok (none, objects) => .ok (false, { w with objects := objects })
    | .ok (some staged, objects) =>
      .ok (true, { w with objects := objects, staged := w.staged ++ [(key, staged)] }))

/-- Stage the keys in order; the number of missing files comes back. -/
def stageKeys (fails : ℕ → Bool) (failure : ε) (ns : String) :
    List String → Program δ StagedWorld ε ℕ
  | [] => pure 0
  | key :: rest => do
    let found ← stageKey fails failure ns key
    let missing ← stageKeys fails failure ns rest
    pure (if found then missing else missing + 1)

/-- `_restore_staged`: the last staged file comes first, and a failure is passed over. -/
def restoreStaged (fails : ℕ → Bool) : List (String × String) → Objects → Bool × Objects
  | [], objects => (true, objects)
  | (key, staged) :: rest, objects =>
    let after := restoreStaged fails rest objects
    if fails rest.length then (false, after.2)
    else
      match restoreStagedDelete key staged after.2 with
      | .error _ => (false, after.2)
      | .ok restored => (after.1, restored)

/-- Purge the staged files in order; how many of them raised. -/
def purgeStaged (fails : ℕ → Bool) : List (String × String) → Objects → ℕ × Objects
  | [], objects => (0, objects)
  | (_, staged) :: rest, objects =>
    if fails rest.length then
      let after := purgeStaged fails rest objects
      (after.1 + 1, after.2)
    else purgeStaged fails rest (purgeStagedDelete staged objects)

structure StagedOutcome (δ α : Type) where
  result : Except String α
  db : δ
  objects : Objects
  calls : List ℕ

/-- A deletion: its transaction, the restore when it raised, and the purge when it
committed. -/
def stagedDeletion (faults : DeletionFaults) (commitFailure : ε) (message : ε → String)
    (restoreMessage : String) (withPurgeFailures : α → ℕ → α) (body : Program δ StagedWorld ε α)
    (db : δ) (objects : Objects) : StagedOutcome δ α :=
  match atomic faults.call commitFailure body ⟨db, ⟨objects, [], []⟩, 0⟩ with
  | .error e t =>
    let restored := restoreStaged faults.restore t.world.staged t.world.objects
    ⟨.error (if restored.1 then message e else restoreMessage), t.db, restored.2, t.world.calls⟩
  | .ok a t =>
    let purged := purgeStaged faults.purge t.world.staged t.world.objects
    ⟨.ok (withPurgeFailures a purged.1), t.db, purged.2, t.world.calls⟩

end Staging

section Files

variable {ns : String} {objects : Objects}

/-- The files and the staged ones after one more key. -/
def stageStep (ns : String) (files : Objects × List (String × String)) (key : String) :
    Except String (Objects × List (String × String)) := do
  let (staged, objects) ← stageDelete ns key files.1
  match staged with
  | none => pure (objects, files.2)
  | some staged => pure (objects, files.2 ++ [(key, staged)])

/-- The files are what staging the keys one after the other has made of them. -/
def StagedBy (ns : String) (objects : Objects) (keys : List String) (w : StagedWorld) : Prop :=
  keys.foldlM (stageStep ns) (objects, []) = .ok (w.objects, w.staged)

theorem stageStep_ok {files files' : Objects × List (String × String)} {key : String}
    (h : stageStep ns files key = .ok files') :
    ∃ staged, stageDelete ns key files.1 = .ok (staged, files'.1) ∧
      files'.2 = files.2 ++ (staged.map (fun s => (key, s))).toList := by
  obtain ⟨⟨staged, moved⟩, hstage, hpure⟩ := bind_eq_ok.mp h
  cases staged with
  | none =>
    cases hpure
    exact ⟨none, hstage, (List.append_nil _).symm⟩
  | some staged =>
    cases hpure
    exact ⟨some staged, hstage, rfl⟩

theorem stagedBy_snoc {keys : List String} {key : String} {w w' : StagedWorld}
    (h : StagedBy ns objects keys w)
    (hstep : stageStep ns (w.objects, w.staged) key = .ok (w'.objects, w'.staged)) :
    StagedBy ns objects (keys ++ [key]) w' := by
  unfold StagedBy at h ⊢
  rw [List.foldlM_append]
  refine bind_eq_ok.mpr ⟨(w.objects, w.staged), h, ?_⟩
  rw [List.foldlM_cons]
  exact bind_eq_ok.mpr ⟨(w'.objects, w'.staged), hstep, rfl⟩

/-- What the staging loop keeps: `inv` speaks about the keys that are done. -/
theorem stagedBy_invariant {keys : List String} {w : StagedWorld}
    {inv : List String → Objects → List (String × String) → Prop} (h : StagedBy ns objects keys w)
    (hstart : inv [] objects [])
    (hstep : ∀ done key files stagedKeys staged moved, key ∈ keys → inv done files stagedKeys →
      stageDelete ns key files = .ok (staged, moved) →
      inv (done ++ [key]) moved (stagedKeys ++ (staged.map (fun s => (key, s))).toList)) :
    inv keys w.objects w.staged := by
  let holds (done : List String) (files : Objects × List (String × String)) : Prop :=
    inv done files.1 files.2
  have hloop : Outcome (holds keys) (fun _ => True)
      (keys.foldlM (stageStep ns) (objects, [])) := by
    refine outcome_foldlM_done ?_ hstart
    intro done key rest files hkeys hinv
    cases hrun : stageStep ns files key with
    | error e => trivial
    | ok files' =>
      obtain ⟨staged, hstage, hlist⟩ := stageStep_ok hrun
      have hnext := hstep done key files.1 files.2 staged files'.1 (by simp [hkeys]) hinv hstage
      show inv (done ++ [key]) files'.1 files'.2
      rw [hlist]
      exact hnext
  rw [show keys.foldlM (stageStep ns) (objects, []) = _ from h] at hloop
  exact hloop

theorem restoreStaged_snoc {fails : ℕ → Bool} (hfails : ∀ n, fails n = false)
    {staged : List (String × String)} {key quarantineKey : String} {files restored : Objects}
    (h : restoreStagedDelete key quarantineKey files = .ok restored) :
    restoreStaged fails (staged ++ [(key, quarantineKey)]) files =
      restoreStaged fails staged restored := by
  induction staged with
  | nil =>
    simp only [List.nil_append, restoreStaged, hfails, Bool.false_eq_true, if_false, h]
  | cons pair rest ih =>
    obtain ⟨first, firstStaged⟩ := pair
    rw [List.cons_append]
    unfold restoreStaged
    rw [ih, hfails, hfails]

/-- The restore in reverse order brings every file back. -/
theorem restoreStaged_stagedBy {fails : ℕ → Bool} (hfails : ∀ n, fails n = false)
    {keys : List String} {w : StagedWorld} (h : StagedBy ns objects keys w) :
    restoreStaged fails w.staged w.objects = (true, objects) := by
  have hkeep := @stagedBy_invariant ns objects keys w
    (fun _ files staged => restoreStaged fails staged files = (true, objects)) h rfl
  apply hkeep
  intro done key files stagedKeys staged moved _ hinv hstage
  cases staged with
  | none =>
    obtain ⟨_, _, _, ⟨_, _, hmoved⟩ | ⟨_, hnone, _⟩⟩ := stageDelete_ok hstage
    · rw [hmoved]
      simpa using hinv
    · cases hnone
  | some staged =>
    rw [← hinv]
    exact restoreStaged_snoc hfails (restoreStagedDelete_stageDelete hstage)

def InQuarantine (ns : String) (path : Path) : Prop := ∃ below, path = quarantined ns below

/-- No key names a file below the quarantine; the name ends in a fresh UUID. -/
def FreshNamespace (ns : String) (keys : List String) : Prop :=
  ∀ key ∈ keys, ∀ path, localPath key = some path → ¬ InQuarantine ns path

/-- The files after staging: those of the keys are gone, the others are where they
were, and a staged file lies where no file was. -/
structure StagedFiles (ns : String) (objects : Objects) (done : List String) (files : Objects)
    (staged : List (String × String)) : Prop where
  gone : ∀ key ∈ done, ∀ path, localPath key = some path → files path = none
  kept : ∀ path, (∀ key ∈ done, localPath key ≠ some path) → ¬ InQuarantine ns path →
    files path = objects path
  quarantine : ∀ path content, InQuarantine ns path → objects path = some content →
    files path = some content
  stagedKeys : ∀ pair ∈ staged, ∃ path, localPath pair.2 = some path ∧ InQuarantine ns path ∧
    objects path = none

theorem stagedFiles_step {done : List String} {key : String} {files moved : Objects}
    {stagedKeys : List (String × String)} {staged : Option String}
    (hdone : FreshNamespace ns done)
    (hkey : ∀ path, localPath key = some path → ¬ InQuarantine ns path)
    (h : StagedFiles ns objects done files stagedKeys)
    (hstage : stageDelete ns key files = .ok (staged, moved)) :
    StagedFiles ns objects (done ++ [key]) moved
      (stagedKeys ++ (staged.map (fun s => (key, s))).toList) := by
  obtain ⟨source, hsource, hns, hcases⟩ := stageDelete_ok hstage
  have hnot := hkey source hsource
  rcases hcases with ⟨hstaged, hmissing, hmoved⟩ | ⟨content, hstaged, hcontent, hfree, hmoved⟩
  · subst hstaged hmoved
    refine ⟨?_, ?_, h.quarantine, by simpa using h.stagedKeys⟩
    · intro other hother path hpath
      rcases List.mem_append.mp hother with hother | hother
      · exact h.gone other hother path hpath
      · rw [List.mem_singleton.mp hother, hsource, Option.some.injEq] at hpath
        rw [← hpath]
        exact hmissing
    · exact fun path hpath => h.kept path (fun other hother =>
        hpath other (List.mem_append_left _ hother))
  · have hquarantine : InQuarantine ns (quarantined ns source) := ⟨source, rfl⟩
    have hne : source ≠ quarantined ns source := fun heq => hnot ⟨source, heq⟩
    subst hstaged hmoved
    refine ⟨?_, ?_, ?_, ?_⟩
    · intro other hother path hpath
      by_cases hsame : path = source
      · rw [hsame]
        exact moveObject_source hne
      · have hdone' : other ∈ done := by
          rcases List.mem_append.mp hother with hother | hother
          · exact hother
          · rw [List.mem_singleton.mp hother, hsource, Option.some.injEq] at hpath
            exact absurd hpath.symm hsame
        have hout := hdone other hdone' path hpath
        rw [moveObject_other hsame (fun heq => hout (heq ▸ hquarantine))]
        exact h.gone other hdone' path hpath
    · intro path hpath hout
      have hsame : path ≠ source := fun heq => hpath key (by simp) (heq ▸ hsource)
      rw [moveObject_other hsame (fun heq => hout (heq ▸ hquarantine))]
      exact h.kept path (fun other hother => hpath other (List.mem_append_left _ hother)) hout
    · intro path old hin hold
      have hfile := h.quarantine path old hin hold
      have hsame : path ≠ source := fun heq => hnot (heq ▸ hin)
      have hdest : path ≠ quarantined ns source := by
        intro heq
        rw [heq, hfree] at hfile
        cases hfile
      rw [moveObject_other hsame hdest]
      exact hfile
    · intro pair hpair
      rcases List.mem_append.mp hpair with hpair | hpair
      · exact h.stagedKeys pair hpair
      · rw [List.mem_singleton.mp hpair]
        refine ⟨quarantined ns source, localPath_stagedKey hns hsource, hquarantine, ?_⟩
        cases hold : objects (quarantined ns source) with
        | none => rfl
        | some old =>
          have hfile := h.quarantine _ old hquarantine hold
          rw [hfree] at hfile
          cases hfile

theorem stagedFiles_stagedBy {keys : List String} {w : StagedWorld}
    (hfresh : FreshNamespace ns keys) (h : StagedBy ns objects keys w) :
    StagedFiles ns objects keys w.objects w.staged := by
  have hkeep := @stagedBy_invariant ns objects keys w (fun done files staged =>
    (∀ key ∈ done, key ∈ keys) ∧ StagedFiles ns objects done files staged) h
      ⟨fun _ h => absurd h List.not_mem_nil, fun _ h => absurd h List.not_mem_nil,
        fun _ _ _ => rfl, fun _ _ _ h => h, fun _ h => absurd h List.not_mem_nil⟩
  refine (hkeep ?_).2
  intro done key files stagedKeys staged moved hkey ⟨hsub, hinv⟩ hstage
  refine ⟨?_, stagedFiles_step (fun other hother => hfresh other (hsub other hother))
    (hfresh key hkey) hinv hstage⟩
  intro other hother
  rcases List.mem_append.mp hother with hother | hother
  · exact hsub other hother
  · exact List.mem_singleton.mp hother ▸ hkey

theorem purgeStaged_other {fails : ℕ → Bool} {staged : List (String × String)} {files : Objects}
    {path : Path} (h : ∀ pair ∈ staged, localPath pair.2 ≠ some path) :
    (purgeStaged fails staged files).2 path = files path := by
  induction staged generalizing files with
  | nil => rfl
  | cons pair rest ih =>
    obtain ⟨key, quarantineKey⟩ := pair
    have hrest : ∀ pair ∈ rest, localPath pair.2 ≠ some path :=
      fun pair hpair => h pair (List.mem_cons_of_mem _ hpair)
    unfold purgeStaged
    split
    · exact ih hrest
    · rw [ih hrest]
      unfold purgeStagedDelete
      cases hpath : localPath quarantineKey with
      | none => rw [delete_of_none hpath]
      | some other =>
        rw [delete_of_some hpath]
        apply withoutObject_other
        intro heq
        exact h _ List.mem_cons_self (heq ▸ hpath)

theorem restoreStaged_other {fails : ℕ → Bool} {staged : List (String × String)} {files : Objects}
    {path : Path}
    (h : ∀ pair ∈ staged, localPath pair.1 ≠ some path ∧ localPath pair.2 ≠ some path) :
    (restoreStaged fails staged files).2 path = files path := by
  induction staged with
  | nil => rfl
  | cons pair rest ih =>
    obtain ⟨key, quarantineKey⟩ := pair
    have hrest := ih (fun pair hpair => h pair (List.mem_cons_of_mem _ hpair))
    obtain ⟨hkey, hstaged⟩ := h _ List.mem_cons_self
    unfold restoreStaged
    dsimp only
    split
    · exact hrest
    · split
      · exact hrest
      · rename_i restored hrestored
        unfold restoreStagedDelete at hrestored
        split at hrestored
        · cases hrestored
        · rename_i source hsource
          split at hrestored
          · cases hrestored
          · split at hrestored
            · cases hrestored
            · rename_i destination hdestination
              split at hrestored
              · cases hrestored
              · cases hrestored
                have hs : path ≠ source := fun heq => hstaged (heq ▸ hsource)
                have hd : path ≠ destination := fun heq => hkey (heq ▸ hdestination)
                exact (moveObject_other hs hd).trans hrest

/-- Staging touches only the files of the keys and the quarantine. -/
theorem stagedBy_untouched {keys : List String} {w : StagedWorld} {path : Path}
    (hkeys : ∀ key ∈ keys, localPath key ≠ some path) (hout : ¬ InQuarantine ns path)
    (h : StagedBy ns objects keys w) :
    w.objects path = objects path ∧
      ∀ pair ∈ w.staged, localPath pair.1 ≠ some path ∧ localPath pair.2 ≠ some path := by
  have hkeep := @stagedBy_invariant ns objects keys w (fun _ files staged =>
    files path = objects path ∧
      ∀ pair ∈ staged, localPath pair.1 ≠ some path ∧ localPath pair.2 ≠ some path) h
    ⟨rfl, fun _ h => absurd h List.not_mem_nil⟩
  apply hkeep
  intro done key files stagedKeys staged moved hkey ⟨hfiles, hpairs⟩ hstage
  obtain ⟨source, hsource, hns, hcases⟩ := stageDelete_ok hstage
  rcases hcases with ⟨hstaged, _, hmoved⟩ | ⟨content, hstaged, _, _, hmoved⟩
  · subst hstaged hmoved
    exact ⟨hfiles, by simpa using hpairs⟩
  · subst hstaged hmoved
    have hsame : path ≠ source := fun heq => hkeys key hkey (heq ▸ hsource)
    have hdest : path ≠ quarantined ns source := fun heq => hout ⟨source, heq⟩
    refine ⟨?_, ?_⟩
    · rw [moveObject_other hsame hdest]
      exact hfiles
    · intro pair hpair
      rcases List.mem_append.mp hpair with hpair | hpair
      · exact hpairs pair hpair
      · rw [List.mem_singleton.mp hpair]
        refine ⟨hkeys key hkey, ?_⟩
        rw [localPath_stagedKey hns hsource]
        exact fun heq => hdest (Option.some.inj heq).symm

/-- Exactly the files of the keys are gone; a purge that raised may leave its file in
the quarantine. -/
structure SelectedGone (ns : String) (keys : List String) (objects final : Objects) : Prop where
  gone : ∀ key ∈ keys, ∀ path, localPath key = some path → final path = none
  kept : ∀ path content, (∀ key ∈ keys, localPath key ≠ some path) →
    objects path = some content → final path = some content
  absent : ∀ path, objects path = none → ¬ InQuarantine ns path → final path = none

theorem selectedGone_purgeStaged {fails : ℕ → Bool} {keys : List String} {w : StagedWorld}
    (hfresh : FreshNamespace ns keys) (h : StagedBy ns objects keys w) :
    SelectedGone ns keys objects (purgeStaged fails w.staged w.objects).2 := by
  have hfiles := stagedFiles_stagedBy hfresh h
  have hother : ∀ path, (InQuarantine ns path → objects path ≠ none) →
      ∀ pair ∈ w.staged, localPath pair.2 ≠ some path := by
    intro path hpath pair hpair heq
    obtain ⟨staged, hstaged, hin, hnone⟩ := hfiles.stagedKeys pair hpair
    rw [heq, Option.some.injEq] at hstaged
    exact hpath (hstaged ▸ hin) (hstaged ▸ hnone)
  refine ⟨?_, ?_, ?_⟩
  · intro key hkey path hpath
    rw [purgeStaged_other (hother path (fun hin => absurd hin (hfresh key hkey path hpath)))]
    exact hfiles.gone key hkey path hpath
  · intro path content hpath hcontent
    rw [purgeStaged_other (hother path (fun _ => by simp [hcontent]))]
    by_cases hin : InQuarantine ns path
    · exact hfiles.quarantine path content hin hcontent
    · rw [hfiles.kept path hpath hin, hcontent]
  · intro path hnone hout
    rw [purgeStaged_other (hother path (fun hin => absurd hin hout))]
    by_cases hpath : ∃ key ∈ keys, localPath key = some path
    · obtain ⟨key, hkey, hpath⟩ := hpath
      exact hfiles.gone key hkey path hpath
    · rw [hfiles.kept path (fun key hkey heq => hpath ⟨key, hkey, heq⟩) hout, hnone]

end Files

section Programs

variable {ns : String} {objects : Objects} {keys : List String} {allowed : List ℕ → Prop}

/-- Some of the keys are staged; the remote calls are among the allowed ones. -/
def Staging (ns : String) (objects : Objects) (keys : List String) (allowed : List ℕ → Prop)
    (w : StagedWorld) : Prop :=
  (∃ done, done <+: keys ∧ StagedBy ns objects done w) ∧ allowed w.calls

theorem stagedBy_start (ns : String) (objects : Objects) (calls : List ℕ) :
    StagedBy ns objects [] ⟨objects, [], calls⟩ := rfl

theorem staging_start (ns : String) (objects : Objects) (keys : List String)
    (hallowed : allowed []) : Staging ns objects keys allowed ⟨objects, [], []⟩ :=
  ⟨⟨[], List.nil_prefix, stagedBy_start ns objects []⟩, hallowed⟩

theorem staging_of_stagedBy {start d : δ} {w : StagedWorld}
    (h : d = start ∧ StagedBy ns objects keys w ∧ allowed w.calls) :
    Staging ns objects keys allowed w :=
  ⟨⟨keys, List.prefix_refl _, h.2.1⟩, h.2.2⟩

theorem stageDelete_step {key : String} {staged : Option String} {moved : Objects}
    {files : Objects × List (String × String)}
    (h : stageDelete ns key files.1 = .ok (staged, moved)) :
    stageStep ns files key =
      .ok (moved, files.2 ++ (staged.map (fun s => (key, s))).toList) := by
  refine bind_eq_ok.mpr ⟨(staged, moved), h, ?_⟩
  cases staged with
  | none =>
    rw [Option.map_none, Option.toList_none, List.append_nil]
    rfl
  | some staged => rfl

/-- The staging loop only stages: `done` keys before it, and `rest` in it. -/
theorem triple_stageRest {fails : ℕ → Bool} {failure : ε} {start : δ} {done rest : List String}
    (hkeys : keys = done ++ rest) :
    Triple (fun db w => db = start ∧ StagedBy ns objects done w ∧ allowed w.calls)
      (stageKeys fails failure ns rest : Program δ StagedWorld ε ℕ)
      (fun _ db w => db = start ∧ StagedBy ns objects keys w ∧ allowed w.calls)
      (fun _ w => Staging ns objects keys allowed w) := by
  induction rest generalizing done with
  | nil =>
    rw [List.append_nil] at hkeys
    subst hkeys
    exact triple_pure (fun db w h => h)
  | cons key rest ih =>
    have hraised : ∀ (db : δ) w, db = start ∧ StagedBy ns objects done w ∧ allowed w.calls →
        Staging ns objects keys allowed w := by
      intro db w h
      exact ⟨⟨done, ⟨key :: rest, hkeys.symm⟩, h.2.1⟩, h.2.2⟩
    have hkey : Triple (fun db w => db = start ∧ StagedBy ns objects done w ∧ allowed w.calls)
        (stageKey fails failure ns key : Program δ StagedWorld ε Bool)
        (fun _ db w => db = start ∧ StagedBy ns objects (done ++ [key]) w ∧ allowed w.calls)
        (fun _ w => Staging ns objects keys allowed w) := by
      refine triple_action (fun db w found w' h hrun => ?_) hraised
      obtain ⟨hdb, hstaged, hcalls⟩ := h
      cases hstage : stageDelete ns key w.objects with
      | error e => simp [hstage] at hrun
      | ok result =>
        obtain ⟨staged, moved⟩ := result
        have hstep := @stageDelete_step ns key staged moved (w.objects, w.staged) hstage
        simp only [hstage] at hrun
        cases staged with
        | none =>
          cases hrun
          rw [Option.map_none, Option.toList_none, List.append_nil] at hstep
          exact ⟨hdb, stagedBy_snoc hstaged hstep, hcalls⟩
        | some staged =>
          cases hrun
          exact ⟨hdb, stagedBy_snoc hstaged hstep, hcalls⟩
    refine hkey.bind (fun found => ?_)
    exact Triple.bind (ih (by rw [hkeys, List.append_cons]))
      (fun missing => triple_pure (fun db w h => h))

theorem triple_stageKeys {fails : ℕ → Bool} {failure : ε} {start : δ} :
    Triple (fun db w => db = start ∧ StagedBy ns objects [] w ∧ allowed w.calls)
      (stageKeys fails failure ns keys : Program δ StagedWorld ε ℕ)
      (fun _ db w => db = start ∧ StagedBy ns objects keys w ∧ allowed w.calls)
      (fun _ w => Staging ns objects keys allowed w) :=
  triple_stageRest (List.nil_append keys).symm

end Programs

section Deletion

variable {faults : DeletionFaults} {commitFailure : ε} {message : ε → String}
  {restoreMessage : String} {withPurgeFailures : α → ℕ → α} {body : Program δ StagedWorld ε α}
  {db : δ} {objects : Objects} {post : α → δ → StagedWorld → Prop} {raised : StagedWorld → Prop}

/-- A deletion returns what its body leaves, with the staged files purged, or raises on
the old database, with the staged files restored. -/
theorem stagedDeletion_cases (faults : DeletionFaults) (commitFailure : ε)
    (message : ε → String) (restoreMessage : String) (withPurgeFailures : α → ℕ → α)
    (hbody : Triple (fun d w => d = db ∧ w = ⟨objects, [], []⟩) body post (fun _ w => raised w))
    (hcommit : ∀ a d w, post a d w → raised w) :
    let outcome := stagedDeletion faults commitFailure message restoreMessage withPurgeFailures
      body db objects
    (∃ a w, post a outcome.db w ∧ outcome.calls = w.calls ∧
      outcome.objects = (purgeStaged faults.purge w.staged w.objects).2 ∧
      ∃ a', outcome.result = .ok a') ∨
    (∃ text w, raised w ∧ outcome.db = db ∧ outcome.calls = w.calls ∧
      outcome.objects = (restoreStaged faults.restore w.staged w.objects).2 ∧
      outcome.result = .error text) := by
  have hrun := @triple_atomic _ _ _ _ _ faults.call commitFailure body db
    (fun w => w = ⟨objects, [], []⟩) raised hbody hcommit ⟨db, ⟨objects, [], []⟩, 0⟩ ⟨rfl, rfl⟩
  unfold stagedDeletion
  cases hatomic : atomic faults.call commitFailure body ⟨db, ⟨objects, [], []⟩, 0⟩ with
  | ok a t =>
    rw [hatomic] at hrun
    exact Or.inl ⟨a, t.world, hrun, rfl, rfl, _, rfl⟩
  | error e t =>
    rw [hatomic] at hrun
    exact Or.inr ⟨_, t.world, hrun.2, hrun.1, rfl, rfl, rfl⟩

/-- All or nothing, for the files of the given keys. -/
structure AllOrNothing (ns : String) (keys : List String) (db : δ) (objects : Objects)
    (outcome : StagedOutcome δ α) : Prop where
  raised : ∀ text, outcome.result = .error text → outcome.db = db ∧ outcome.objects = objects
  returned : ∀ a, outcome.result = .ok a → SelectedGone ns keys objects outcome.objects

/-- A body whose only effect on the files is to stage them makes an all-or-nothing
deletion. -/
theorem stagedDeletion_all_or_nothing {ns : String} {keys : List String}
    {allowed : List ℕ → Prop}
    (hrestore : ∀ n, faults.restore n = false) (hfresh : FreshNamespace ns keys)
    (hbody : Triple (fun d w => d = db ∧ w = ⟨objects, [], []⟩) body
      (fun _ _ w => StagedBy ns objects keys w ∧ allowed w.calls)
      (fun _ w => Staging ns objects keys allowed w)) :
    AllOrNothing ns keys db objects (stagedDeletion faults commitFailure message restoreMessage
      withPurgeFailures body db objects) := by
  rcases stagedDeletion_cases faults commitFailure message restoreMessage withPurgeFailures hbody
      (fun _ _ _ h => ⟨⟨keys, List.prefix_refl _, h.1⟩, h.2⟩) with
    ⟨a, w, hstaged, _, hobjects, a', hresult⟩ |
      ⟨text, w, ⟨⟨done, _, hstaged⟩, _⟩, hdb, _, hobjects, hresult⟩
  · refine ⟨fun text htext => ?_, fun _ _ => ?_⟩
    · rw [hresult] at htext
      cases htext
    · rw [hobjects]
      exact selectedGone_purgeStaged hfresh hstaged.1
  · refine ⟨fun _ _ => ⟨hdb, ?_⟩, fun a ha => ?_⟩
    · rw [hobjects, restoreStaged_stagedBy hrestore hstaged]
    · rw [hresult] at ha
      cases ha

/-- A file that none of the keys names stays as it is, whatever raises. -/
theorem stagedDeletion_untouched (faults : DeletionFaults) (commitFailure : ε)
    (message : ε → String) (restoreMessage : String) (withPurgeFailures : α → ℕ → α)
    {ns : String} {keys : List String} {allowed : List ℕ → Prop}
    (hbody : Triple (fun d w => d = db ∧ w = ⟨objects, [], []⟩) body
      (fun _ _ w => StagedBy ns objects keys w ∧ allowed w.calls)
      (fun _ w => Staging ns objects keys allowed w))
    {path : Path} (hkeys : ∀ key ∈ keys, localPath key ≠ some path)
    (hout : ¬ InQuarantine ns path) :
    (stagedDeletion faults commitFailure message restoreMessage withPurgeFailures body db
      objects).objects path = objects path := by
  rcases stagedDeletion_cases faults commitFailure message restoreMessage withPurgeFailures hbody
      (fun _ _ _ h => ⟨⟨keys, List.prefix_refl _, h.1⟩, h.2⟩) with
    ⟨a, w, ⟨hstaged, _⟩, _, hobjects, _⟩ |
      ⟨text, w, ⟨⟨done, hfront, hstaged⟩, _⟩, _, _, hobjects, _⟩
  · obtain ⟨hfile, hpairs⟩ := stagedBy_untouched hkeys hout hstaged
    rw [hobjects, purgeStaged_other (fun pair hpair => (hpairs pair hpair).2), hfile]
  · obtain ⟨hfile, hpairs⟩ := stagedBy_untouched
      (fun key hkey => hkeys key (hfront.subset hkey)) hout hstaged
    rw [hobjects, restoreStaged_other hpairs, hfile]

/-- The remote calls of a deletion are among the allowed ones. -/
theorem stagedDeletion_calls (faults : DeletionFaults) (commitFailure : ε)
    (message : ε → String) (restoreMessage : String) (withPurgeFailures : α → ℕ → α)
    {ns : String} {keys : List String} {allowed : List ℕ → Prop}
    (hbody : Triple (fun d w => d = db ∧ w = ⟨objects, [], []⟩) body
      (fun _ _ w => StagedBy ns objects keys w ∧ allowed w.calls)
      (fun _ w => Staging ns objects keys allowed w)) :
    allowed (stagedDeletion faults commitFailure message restoreMessage withPurgeFailures body db
      objects).calls := by
  rcases stagedDeletion_cases faults commitFailure message restoreMessage withPurgeFailures hbody
      (fun _ _ _ h => ⟨⟨keys, List.prefix_refl _, h.1⟩, h.2⟩) with
    ⟨a, w, hstaged, hcalls, _⟩ | ⟨text, w, hstaging, _, hcalls, _⟩
  · rw [hcalls]
    exact hstaged.2
  · rw [hcalls]
    exact hstaging.2

/-- A body that raises before it touches anything makes a refused deletion. -/
theorem stagedDeletion_refused (faults : DeletionFaults) (commitFailure : ε)
    (message : ε → String) (restoreMessage : String) (withPurgeFailures : α → ℕ → α)
    (hbody : Triple (fun d w => d = db ∧ w = ⟨objects, [], []⟩) body (fun _ _ _ => False)
      (fun _ w => w = ⟨objects, [], []⟩)) :
    let outcome := stagedDeletion faults commitFailure message restoreMessage withPurgeFailures
      body db objects
    outcome.db = db ∧ outcome.objects = objects ∧ outcome.calls = [] := by
  rcases stagedDeletion_cases faults commitFailure message restoreMessage withPurgeFailures hbody
      (fun _ _ _ h => absurd h not_false) with
    ⟨a, w, hpost, _⟩ | ⟨text, w, hstart, hdb, hcalls, hobjects, _⟩
  · exact absurd hpost not_false
  · rw [hstart] at hcalls hobjects
    exact ⟨hdb, hobjects, hcalls⟩

end Deletion

end ConfigBackup.StagedDeletion
