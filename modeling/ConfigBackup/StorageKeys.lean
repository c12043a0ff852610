import ConfigBackup.S3Storage
import Mathlib

/-!
Storage keys and the objects that they address. Both storages let the path library drop the
empty and dot segments of a key before they look at its segments. Every accepted key stays
below the root or the prefix, but different spellings of a key address one object.
-/

namespace ConfigBackup.StorageKeys

open LocalStorage PosixPaths S3Storage Text

/-- The file that a key resolves to below the given root. -/
def localLocation (root : Path) (key : String) : Option Path :=
  (localPath key).map fun path => root ++ path

/-- What an object key has after the prefix. -/
def BelowPrefix (storagePrefix object : String) : Prop :=
  ∃ rest, rest ≠ "" ∧ ['.', '.'] ∉ components rest.toList ∧
    object = if storagePrefix = "" then rest else storagePrefix ++ "/" ++ rest

/-- The two keys address objects below the root and the prefix, and when they are different
they address different ones, so that writing or deleting the one keeps the other. -/
structure AddressSeparately (root : Path) (storagePrefix key other : String) : Prop where
  localBelow : ∀ location, localLocation root key = some location →
    ∃ rest, rest ≠ [] ∧ ['.', '.'] ∉ rest ∧ location = root ++ rest
  localDistinct : key ≠ other → ∀ location location',
    localLocation root key = some location → localLocation root other = some location' →
      location ≠ location'
  localWrite : key ≠ other → ∀ path content objects, localPath other = some path →
    withFile key content objects path = objects path
  localDelete : key ≠ other → ∀ path objects, localPath other = some path →
    delete key objects path = objects path
  objectBelow : ∀ object, objectKey storagePrefix key = some object →
    BelowPrefix storagePrefix object
  objectDistinct : key ≠ other → ∀ object object',
    objectKey storagePrefix key = some object → objectKey storagePrefix other = some object' →
      object ≠ object'

/-- The keys differ in a segment that is neither empty nor a dot, or one of them is refused. -/
def SpelledApart (key other : String) : Prop :=
  (validateKey key).isSome → (validateKey other).isSome →
    components key.toList ≠ components other.toList

section Keys

variable {root : Path} {storagePrefix key other : String}

theorem localPath_components {path : Path} (h : localPath key = some path) :
    path = components key.toList ∧ path ≠ [] ∧ ['.', '.'] ∉ path := by
  have heq := localPath_eq_some h
  refine ⟨heq, ?_⟩
  unfold localPath at h
  dsimp only at h
  split at h
  · cases h
  · rename_i hvalid
    rw [not_or, not_or, not_or] at hvalid
    rw [heq]
    exact ⟨hvalid.2.2.2, hvalid.2.2.1⟩

/-- A key that the local storage accepts is accepted by the S3 storage. -/
theorem isSome_validateKey {path : Path} (h : localPath key = some path) :
    (validateKey key).isSome := by
  unfold localPath at h
  dsimp only at h
  split at h
  · cases h
  · rename_i hvalid
    rw [not_or, not_or, not_or] at hvalid
    unfold validateKey
    dsimp only
    rw [if_neg]
    · split <;> rfl
    · rintro (rfl | hslash | hroot | hparent)
      · exact hvalid.2.2.2 rfl
      · exact hvalid.1 hslash
      · exact hvalid.2.1 hroot
      · exact hvalid.2.2.1 (List.contains_iff_mem.mp hparent)

/-- An accepted key is normalised by its components alone. -/
theorem validateKey_eq {logical : String} (h : validateKey key = some logical) :
    logical = if components key.toList = [] then "."
      else String.ofList (joinWith '/' (components key.toList)) := by
  unfold validateKey at h
  dsimp only at h
  split at h
  · cases h
  · split at h
    · rename_i hnil
      rw [if_pos hnil]
      exact (Option.some.inj h).symm
    · rename_i hne
      rw [if_neg hne]
      exact (Option.some.inj h).symm

theorem ne_empty_of_validateKey {logical : String} (h : validateKey key = some logical) :
    logical ≠ "" := by
  intro hempty
  have hcomponents := components_validateKey h
  have heq := validateKey_eq h
  rw [hempty] at hcomponents heq
  have hnil : components key.toList = [] := hcomponents.symm
  rw [if_pos hnil] at heq
  exact absurd heq (by decide)

theorem objectKey_eq_some {object : String} (h : objectKey storagePrefix key = some object) :
    ∃ logical, validateKey key = some logical ∧
      object = if storagePrefix = "" then logical else storagePrefix ++ "/" ++ logical := by
  obtain ⟨logical, hlogical, hobject⟩ := Option.map_eq_some_iff.mp h
  exact ⟨logical, hlogical, hobject.symm⟩

/-- Different spellings are one object, and different components are different objects. -/
theorem objectKey_eq_iff {object object' : String}
    (h : objectKey storagePrefix key = some object)
    (h' : objectKey storagePrefix other = some object') :
    object = object' ↔ components key.toList = components other.toList := by
  obtain ⟨logical, hlogical, rfl⟩ := objectKey_eq_some h
  obtain ⟨logical', hlogical', rfl⟩ := objectKey_eq_some h'
  have hsame : logical = logical' ↔ components key.toList = components other.toList := by
    constructor
    · rintro rfl
      rw [← components_validateKey hlogical, components_validateKey hlogical']
    · intro hcomponents
      rw [validateKey_eq hlogical, validateKey_eq hlogical', hcomponents]
  rw [← hsame]
  split
  · exact Iff.rfl
  · exact String.append_right_inj _

theorem isSome_objectKey : (objectKey storagePrefix key).isSome = (validateKey key).isSome := by
  unfold objectKey
  exact Option.isSome_map

theorem separately_of_apart (h : key = other ∨ SpelledApart key other) :
    AddressSeparately root storagePrefix key other := by
  have hpaths : key ≠ other → ∀ path path', localPath key = some path →
      localPath other = some path' → path ≠ path' := by
    intro hne path path' hpath hpath' hsame
    apply (h.resolve_left hne) (isSome_validateKey hpath) (isSome_validateKey hpath')
    rw [← (localPath_components hpath).1, ← (localPath_components hpath').1, hsame]
  constructor
  · intro location hlocation
    obtain ⟨path, hpath, rfl⟩ := Option.map_eq_some_iff.mp hlocation
    obtain ⟨-, hne, hparent⟩ := localPath_components hpath
    exact ⟨path, hne, hparent, rfl⟩
  · intro hne location location' hlocation hlocation' hsame
    obtain ⟨path, hpath, rfl⟩ := Option.map_eq_some_iff.mp hlocation
    obtain ⟨path', hpath', rfl⟩ := Option.map_eq_some_iff.mp hlocation'
    exact hpaths hne path path' hpath hpath' (List.append_cancel_left hsame)
  · intro hne path content objects hpath
    exact withFile_other (fun hkey => hpaths hne path path hkey hpath rfl) content objects
  · intro hne path objects hpath
    cases hkey : localPath key with
    | none => rw [delete_of_none hkey]
    | some found =>
      rw [delete_of_some hkey]
      exact withoutObject_other fun hsame => hpaths hne found path hkey hpath hsame.symm
  · intro object hobject
    obtain ⟨logical, hlogical, rfl⟩ := objectKey_eq_some hobject
    exact ⟨logical, ne_empty_of_validateKey hlogical, (validateKey_safe hlogical).2, rfl⟩
  · intro hne object object' hobject hobject' hsame
    obtain ⟨logical, hlogical, -⟩ := objectKey_eq_some hobject
    obtain ⟨logical', hlogical', -⟩ := objectKey_eq_some hobject'
    apply (h.resolve_left hne) (Option.isSome_of_mem hlogical) (Option.isSome_of_mem hlogical')
    exact (objectKey_eq_iff hobject hobject').mp hsame

/-- Both storages keep different keys apart exactly when the keys differ in more than empty and
dot segments. -/
theorem addressSeparately_iff (root : Path) (storagePrefix key other : String) :
    AddressSeparately root storagePrefix key other ↔ key = other ∨ SpelledApart key other := by
  constructor
  · intro h
    by_cases hsame : key = other
    · exact Or.inl hsame
    right
    intro hkey hother hcomponents
    rw [← @isSome_objectKey storagePrefix] at hkey hother
    obtain ⟨object, hobject⟩ := Option.isSome_iff_exists.mp hkey
    obtain ⟨object', hobject'⟩ := Option.isSome_iff_exists.mp hother
    exact h.objectDistinct hsame object object' hobject hobject'
      ((objectKey_eq_iff hobject hobject').mpr hcomponents)
  · exact separately_of_apart

/-- A doubled slash is a second key for the same file. -/
theorem addressSeparately_counterexample :
    ¬ ∀ (root : Path) (storagePrefix key other : String),
      AddressSeparately root storagePrefix key other := by
  intro hall
  have hseparate := hall [] "" "a//b" "a/b"
  exact hseparate.localDistinct (by decide) [['a'], ['b']] [['a'], ['b']] (by decide +kernel)
    (by decide +kernel) rfl

end Keys

section Pipeline

/-- The key that the pipeline forms for an artifact. -/
def pipelineKey (deviceId : ℕ) (revisionUuid filename : String) : String :=
  "devices/" ++ toString deviceId ++ "/revisions/" ++ revisionUuid ++ "/" ++ filename

theorem isComponent_digits (n : ℕ) : IsComponent (toString n).toList := by
  have htext : (toString n).toList = Nat.toDigits 10 n := by
    simp [toString, Nat.repr]
  have hdigits : ∀ c ∈ Nat.toDigits 10 n, c.isDigit = true :=
    fun c hc => Nat.isDigit_of_mem_toDigits (by omega) (by omega) hc
  rw [htext]
  refine ⟨Nat.toDigits_ne_nil, fun hdot => ?_, fun hslash => ?_⟩
  · have hdigit := hdigits '.' (by rw [hdot]; exact List.mem_singleton_self _)
    cases hdigit
  · cases hdigits '/' hslash

theorem components_pipelineKey (deviceId : ℕ) {revisionUuid : String}
    (huuid : IsComponent revisionUuid.toList) (filename : String) :
    components (pipelineKey deviceId revisionUuid filename).toList =
      "devices".toList :: (toString deviceId).toList :: "revisions".toList ::
        revisionUuid.toList :: components filename.toList := by
  have hkey : (pipelineKey deviceId revisionUuid filename).toList =
      "devices".toList ++ '/' :: ((toString deviceId).toList ++ '/' :: ("revisions".toList ++
        '/' :: (revisionUuid.toList ++ '/' :: filename.toList))) := by
    simp [pipelineKey]
  have hdevices : IsComponent "devices".toList := by unfold IsComponent; decide
  have hrevisions : IsComponent "revisions".toList := by unfold IsComponent; decide
  rw [hkey, components_cons hdevices, components_cons (isComponent_digits deviceId),
    components_cons hrevisions, components_cons huuid]

/-- The components of a plain file name tell which name it is. -/
theorem components_filename_inj {filename other : String} (h : PlainFilename filename)
    (h' : PlainFilename other)
    (hsame : components filename.toList = components other.toList) : filename = other := by
  have hone (name : String) (hname : PlainFilename name) : components name.toList =
      if name.toList = ['.'] then [] else [name.toList] := by
    have hne : name.toList ≠ [] := by simpa using hname.1
    unfold components
    rw [List.splitOn_eq_singleton hname.2.1]
    by_cases hdot : name.toList = ['.']
    · rw [hdot]
      rfl
    · rw [if_neg hdot, List.filter_cons_of_pos (by simp [hne, hdot])]
      rfl
  rw [hone filename h, hone other h'] at hsame
  apply String.toList_inj.mp
  by_cases hdot : filename.toList = ['.']
  · by_cases hdot' : other.toList = ['.']
    · rw [hdot, hdot']
    · rw [if_pos hdot, if_neg hdot'] at hsame
      cases hsame
  · by_cases hdot' : other.toList = ['.']
    · rw [if_neg hdot, if_pos hdot'] at hsame
      cases hsame
    · rw [if_neg hdot, if_neg hdot'] at hsame
      exact List.head_eq_of_cons_eq hsame

/-- The keys of the pipeline are one to one. -/
theorem pipelineKeys_separate (root : Path) (storagePrefix : String) (deviceId deviceId' : ℕ)
    {revisionUuid revisionUuid' filename filename' : String}
    (huuid : IsComponent revisionUuid.toList) (huuid' : IsComponent revisionUuid'.toList)
    (hfilename : PlainFilename filename) (hfilename' : PlainFilename filename') :
    AddressSeparately root storagePrefix (pipelineKey deviceId revisionUuid filename)
      (pipelineKey deviceId' revisionUuid' filename') := by
  apply separately_of_apart
  by_cases hsame : components (pipelineKey deviceId revisionUuid filename).toList =
      components (pipelineKey deviceId' revisionUuid' filename').toList
  · left
    rw [components_pipelineKey deviceId huuid, components_pipelineKey deviceId' huuid'] at hsame
    simp only [List.cons.injEq, true_and] at hsame
    obtain ⟨hdevice, hrevision, hname⟩ := hsame
    unfold pipelineKey
    rw [String.toList_inj.mp hdevice, String.toList_inj.mp hrevision,
      components_filename_inj hfilename hfilename' hname]
  · exact Or.inr fun _ _ => hsame

end Pipeline

end ConfigBackup.StorageKeys
