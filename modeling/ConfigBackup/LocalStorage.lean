import Mathlib.Logic.Function.Basic
import Mathlib.Tactic.Common

/-!
The local file storage. A key names the file at its path below the root; the path
drops empty and dot components. A put writes a temporary file and renames it, and a
deletion first moves the file into a quarantine, from where it can be restored.
-/

namespace ConfigBackup.LocalStorage

/-- The components of a path below the root. -/
abbrev Path := List (List Char)

/-- The files below the root, none of which is a symbolic link. -/
abbrev Objects := Path → Option (List UInt8)

section Paths

/-- `LocalConfigStorage._path`, which refuses keys that leave the root. -/
def localPath (key : String) : Option Path :=
  let parts := (key.toList.splitOn '/').filter (fun part => part != [] && part != ['.'])
  if '\\' ∈ key.toList ∨ key.toList.head? = some '/' ∨ ['.', '.'] ∈ parts ∨ parts = [] then none
  else some parts

/-- What `CollectedArtifact` accepts as a file name. -/
def PlainFilename (filename : String) : Prop :=
  filename ≠ "" ∧ '/' ∉ filename.toList ∧ '\\' ∉ filename.toList

theorem localPath_eq_some {key : String} {path : Path} (h : localPath key = some path) :
    path = (key.toList.splitOn '/').filter (fun part => part != [] && part != ['.']) := by
  unfold localPath at h
  dsimp only at h
  split at h
  · cases h
  · exact (Option.some.inj h).symm

theorem splitOn_filename (directory : String) {filename : String} (h : PlainFilename filename) :
    (directory ++ "/" ++ filename).toList.splitOn '/' =
      directory.toList.splitOn '/' ++ [filename.toList] := by
  have htext : (directory ++ "/" ++ filename).toList =
      directory.toList ++ '/' :: filename.toList := by simp
  have hone : filename.toList.splitOnP (fun c => c == '/') = [filename.toList] := by
    apply List.splitOnP_eq_singleton
    intro c hc
    have hne : c ≠ '/' := fun heq => h.2.1 (heq ▸ hc)
    simpa using hne
  rw [htext, List.splitOn_eq_splitOnP, List.splitOnP_append_cons _ _ (by simp), hone,
    List.splitOn_eq_splitOnP]

/-- Two plain files of one directory have different paths. -/
theorem localPath_injective {directory filename other : String} {path : Path}
    (hfilename : PlainFilename filename) (hother : PlainFilename other)
    (h : localPath (directory ++ "/" ++ filename) = some path)
    (h' : localPath (directory ++ "/" ++ other) = some path) : filename = other := by
  have hne : filename.toList ≠ [] := by simpa using hfilename.1
  have hne' : other.toList ≠ [] := by simpa using hother.1
  have hsame := (localPath_eq_some h).symm.trans (localPath_eq_some h')
  rw [splitOn_filename _ hfilename, splitOn_filename _ hother, List.filter_append,
    List.filter_append, List.append_cancel_left_eq] at hsame
  apply String.toList_inj.mp
  by_cases hdot : filename.toList = ['.'] <;> by_cases hdot' : other.toList = ['.']
  · rw [hdot, hdot']
  · simp [hdot, hdot', hne'] at hsame
  · simp [hdot, hdot', hne] at hsame
  · simpa [hdot, hdot', hne, hne'] using hsame

end Paths

section Files

variable {ε : Type}

def getObject (objects : Objects) (key : String) : Option (List UInt8) :=
  (localPath key).bind objects

def withObject (objects : Objects) (path : Path) (content : List UInt8) : Objects :=
  Function.update objects path (some content)

def withoutObject (objects : Objects) (path : Path) : Objects :=
  Function.update objects path none

/-- The steps of a put that may raise, in their order. -/
inductive PutStep
  | makeDirectory | createTemporary | writeTemporary | rename | setMode
deriving DecidableEq, Repr

/-- The file is visible under its key once the rename is done. -/
def PutStep.afterRename : PutStep → Bool
  | .setMode => true
  | .makeDirectory | .createTemporary | .writeTemporary | .rename => false

/-- Write a file under its key; the fault is the step that raises, if one does. -/
def put (invalidKey : ε) (fault : Option (PutStep × ε)) (key : String) (content : List UInt8)
    (objects : Objects) : Except ε ℕ × Objects :=
  match localPath key with
  | none => (.error invalidKey, objects)
  | some path =>
    match fault with
    | none => (.ok content.length, withObject objects path content)
    | some (step, e) =>
      (.error e, if step.afterRename then withObject objects path content else objects)

/-- The files after a put that returned. -/
def withFile (key : String) (content : List UInt8) (objects : Objects) : Objects :=
  match localPath key with
  | none => objects
  | some path => withObject objects path content

/-- A deletion that does not raise; an absent file is no error. -/
def delete (key : String) (objects : Objects) : Objects :=
  match localPath key with
  | none => objects
  | some path => withoutObject objects path

@[simp] theorem withObject_same (objects : Objects) (path : Path) (content : List UInt8) :
    withObject objects path content path = some content :=
  Function.update_self ..

theorem withObject_other {objects : Objects} {path other : Path} {content : List UInt8}
    (h : other ≠ path) : withObject objects path content other = objects other :=
  Function.update_of_ne h ..

@[simp] theorem withoutObject_same (objects : Objects) (path : Path) :
    withoutObject objects path path = none :=
  Function.update_self ..

theorem withoutObject_other {objects : Objects} {path other : Path} (h : other ≠ path) :
    withoutObject objects path other = objects other :=
  Function.update_of_ne h ..

theorem delete_of_none {key : String} (h : localPath key = none) (objects : Objects) :
    delete key objects = objects := by
  unfold delete
  rw [h]

theorem delete_of_some {key : String} {path : Path} (h : localPath key = some path)
    (objects : Objects) : delete key objects = withoutObject objects path := by
  unfold delete
  rw [h]

theorem withFile_other {key : String} {path : Path} (h : localPath key ≠ some path)
    (content : List UInt8) (objects : Objects) :
    withFile key content objects path = objects path := by
  unfold withFile
  cases hkey : localPath key with
  | none => rfl
  | some found => exact withObject_other (fun heq => h (by rw [hkey, heq]))

theorem withFile_same {key : String} {path : Path} (h : localPath key = some path)
    (content : List UInt8) (objects : Objects) :
    withFile key content objects path = some content := by
  unfold withFile
  rw [h]
  exact withObject_same ..

/-- Deleting keys one after the other removes exactly their files. -/
theorem foldr_delete (keys : List String) (objects : Objects) (path : Path) :
    keys.foldr delete objects path =
      if some path ∈ keys.map localPath then none else objects path := by
  induction keys with
  | nil => rfl
  | cons key rest ih =>
    rw [List.foldr_cons]
    cases hpath : localPath key with
    | none => simpa [delete_of_none hpath, hpath] using ih
    | some found =>
      rw [delete_of_some hpath]
      by_cases hsame : path = found
      · subst found
        simp [hpath]
      · rw [withoutObject_other hsame, ih]
        simp [hpath, hsame]

end Files

section Quarantine

/-- Letters, digits, underscores and hyphens, at most 100 of them. -/
def validNamespace (ns : String) : Bool :=
  ns.toList.all (fun c => c.isAlphanum || c == '_' || c == '-') &&
    decide (1 ≤ ns.length ∧ ns.length ≤ 100)

def stagedKey (ns key : String) : String := ".retention-trash/" ++ ns ++ "/" ++ key

/-- The path below the quarantine of the namespace. -/
def quarantined (ns : String) (path : Path) : Path :=
  ".retention-trash".toList :: ns.toList :: path

/-- `os.replace` of one file. -/
def moveObject (source destination : Path) (content : List UInt8) (objects : Objects) : Objects :=
  withObject (withoutObject objects source) destination content

/-- Move an object into the quarantine; a missing file is no error. -/
def stageDelete (ns key : String) (objects : Objects) :
    Except String (Option String × Objects) :=
  if !validNamespace ns then .error "Invalid storage quarantine namespace."
  else
    match localPath key with
    | none => .error "Invalid storage key."
    | some source =>
      match objects source with
      | none => .ok (none, objects)
      | some content =>
        match localPath (stagedKey ns key) with
        | none => .error "Invalid storage key."
        | some destination =>
          if (objects destination).isSome then
            .error "Storage quarantine object already exists."
          else .ok (some (stagedKey ns key), moveObject source destination content objects)

/-- Move a quarantined object back. -/
def restoreStagedDelete (key staged : String) (objects : Objects) : Except String Objects :=
  match localPath staged with
  | none => .error "Invalid storage key."
  | some source =>
    match objects source with
    | none => .error "Quarantined configuration object is missing."
    | some content =>
      match localPath key with
      | none => .error "Invalid storage key."
      | some destination =>
        if (objects destination).isSome then
          .error "Configuration restore destination already exists."
        else .ok (moveObject source destination content objects)

/-- A purge that does not raise. -/
def purgeStagedDelete (staged : String) (objects : Objects) : Objects := delete staged objects

variable {ns key : String} {objects moved : Objects} {path source destination : Path}
  {content : List UInt8}

theorem splitOn_segment {segment rest : List Char} (h : '/' ∉ segment) :
    (segment ++ '/' :: rest).splitOn '/' = segment :: rest.splitOn '/' := by
  have hone : segment.splitOnP (fun c => c == '/') = [segment] := by
    apply List.splitOnP_eq_singleton
    intro c hc
    have hne : c ≠ '/' := fun heq => h (heq ▸ hc)
    simpa using hne
  rw [List.splitOn_eq_splitOnP, List.splitOnP_append_cons _ _ (by simp), hone,
    List.splitOn_eq_splitOnP, List.singleton_append]

theorem not_mem_of_validNamespace (h : validNamespace ns = true) {c : Char}
    (hc : (c.isAlphanum || c == '_' || c == '-') = false) : c ∉ ns.toList := by
  unfold validNamespace at h
  intro hmem
  have hall := List.all_eq_true.mp (Bool.and_eq_true _ _ ▸ h).1 c hmem
  rw [hc] at hall
  cases hall

theorem toList_stagedKey (ns key : String) : (stagedKey ns key).toList =
    ".retention-trash".toList ++ '/' :: (ns.toList ++ '/' :: key.toList) := by
  unfold stagedKey
  rw [String.toList_append, String.toList_append, String.toList_append,
    show ".retention-trash/".toList = ".retention-trash".toList ++ ['/'] from rfl,
    show "/".toList = ['/'] from rfl, List.append_assoc, List.append_assoc, List.append_assoc]
  rfl

theorem ne_nil_of_validNamespace (h : validNamespace ns = true) : ns.toList ≠ [] := by
  intro hnil
  simp [validNamespace, String.toList_eq_nil_iff.mp hnil] at h

/-- A staged key names the path of its key below the quarantine. -/
theorem localPath_stagedKey (hns : validNamespace ns = true) (hkey : localPath key = some path) :
    localPath (stagedKey ns key) = some (quarantined ns path) := by
  have hslash : '/' ∉ ns.toList := not_mem_of_validNamespace hns rfl
  have hbackslash : '\\' ∉ ns.toList := not_mem_of_validNamespace hns rfl
  have hdot : '.' ∉ ns.toList := not_mem_of_validNamespace hns rfl
  have hne : ns.toList ≠ [] := ne_nil_of_validNamespace hns
  have htext := toList_stagedKey ns key
  have hsplit : (stagedKey ns key).toList.splitOn '/' =
      ".retention-trash".toList :: ns.toList :: key.toList.splitOn '/' := by
    rw [htext, splitOn_segment (by decide), splitOn_segment hslash]
  have hdots : ns.toList ≠ ['.'] := fun heq => hdot (by simp [heq])
  have hparents : ['.', '.'] ≠ ns.toList := fun heq => hdot (by simp [← heq])
  have hparts := localPath_eq_some hkey
  unfold localPath at hkey ⊢
  dsimp only at hkey ⊢
  rw [← hparts] at hkey
  split at hkey
  · cases hkey
  · rename_i hvalid
    rw [not_or, not_or, not_or] at hvalid
    have hfilter : ((stagedKey ns key).toList.splitOn '/').filter
        (fun part => part != [] && part != ['.']) = quarantined ns path := by
      rw [hsplit, hparts, List.filter_cons_of_pos (by decide),
        List.filter_cons_of_pos (by simp [hne, hdots])]
      rfl
    rw [hfilter, if_neg]
    rw [not_or, not_or, not_or]
    refine ⟨?_, ?_, ?_, List.cons_ne_nil _ _⟩
    · rw [htext]
      simp [hbackslash, hvalid.1]
    · rw [htext]
      simp
    · unfold quarantined
      rw [List.mem_cons, List.mem_cons, not_or, not_or]
      exact ⟨by decide, hparents, hvalid.2.2.1⟩

/-- What staging a key does when it returns. -/
theorem stageDelete_ok {staged : Option String}
    (h : stageDelete ns key objects = .ok (staged, moved)) :
    ∃ path, localPath key = some path ∧ validNamespace ns = true ∧
      ((staged = none ∧ objects path = none ∧ moved = objects) ∨
        ∃ content, staged = some (stagedKey ns key) ∧ objects path = some content ∧
          objects (quarantined ns path) = none ∧
          moved = moveObject path (quarantined ns path) content objects) := by
  unfold stageDelete at h
  cases hns : validNamespace ns with
  | false => simp [hns] at h
  | true =>
    cases hpath : localPath key with
    | none => simp [hns, hpath] at h
    | some path =>
      refine ⟨path, rfl, rfl, ?_⟩
      cases hcontent : objects path with
      | none =>
        simp only [hns, hpath, hcontent, Bool.not_true, Bool.false_eq_true, if_false] at h
        cases h
        exact Or.inl ⟨rfl, rfl, rfl⟩
      | some content =>
        have hstaged := localPath_stagedKey hns hpath
        simp only [hns, hpath, hcontent, hstaged, Bool.not_true, Bool.false_eq_true,
          if_false] at h
        split at h
        · cases h
        · rename_i hfree
          rw [Bool.not_eq_true, Option.isSome_eq_false_iff, Option.isNone_iff_eq_none] at hfree
          cases h
          exact Or.inr ⟨content, rfl, rfl, hfree, rfl⟩

theorem moveObject_other {other : Path} (hsource : other ≠ source) (hdest : other ≠ destination) :
    moveObject source destination content objects other = objects other := by
  unfold moveObject
  rw [withObject_other hdest, withoutObject_other hsource]

theorem moveObject_source (h : source ≠ destination) :
    moveObject source destination content objects source = none := by
  unfold moveObject
  rw [withObject_other h, withoutObject_same]

/-- Moving a file back leaves all files as they were. -/
theorem moveObject_undo (hsource : objects source = some content)
    (hdest : objects destination = none) :
    moveObject destination source content (moveObject source destination content objects) =
      objects := by
  have hne : source ≠ destination := by
    intro heq
    rw [heq, hdest] at hsource
    cases hsource
  funext path
  by_cases hs : path = source
  · subst hs
    unfold moveObject
    rw [withObject_same, hsource]
  · by_cases hd : path = destination
    · subst hd
      rw [moveObject_source hne.symm, hdest]
    · rw [moveObject_other hd hs, moveObject_other hs hd]

/-- What was staged can be restored. -/
theorem restoreStagedDelete_stageDelete {staged : String}
    (h : stageDelete ns key objects = .ok (some staged, moved)) :
    restoreStagedDelete key staged moved = .ok objects := by
  obtain ⟨path, hpath, hns, hcases⟩ := stageDelete_ok h
  rcases hcases with ⟨hnone, _⟩ | ⟨content, hstaged, hcontent, hfree, hmoved⟩
  · cases hnone
  · rw [Option.some.injEq] at hstaged
    have hne : path ≠ quarantined ns path := by
      intro heq
      rw [← heq, hcontent] at hfree
      cases hfree
    have hthere : moved (quarantined ns path) = some content := by
      rw [hmoved]
      exact withObject_same ..
    have hgone : moved path = none := by
      rw [hmoved]
      exact moveObject_source hne
    unfold restoreStagedDelete
    rw [hstaged, localPath_stagedKey hns hpath]
    simp only [hthere, hpath, hgone, Option.isSome_none, Bool.false_eq_true, if_false]
    rw [hmoved, moveObject_undo hcontent hfree]

end Quarantine

end ConfigBackup.LocalStorage
