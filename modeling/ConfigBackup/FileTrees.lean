import Mathlib.Tactic.Common

/-!
Trees of files over any type of names and of contents. A path lists its names from the last
one up to the root, so that the parent of a path is its tail.
-/

namespace ConfigBackup.FileTrees

inductive Entry (κ : Type)
  | file (content : κ)
  | directory
deriving DecidableEq, Repr

/-- A tree lists the names of every directory, and every entry lies in a directory. -/
structure FileTree (ν κ : Type) where
  get : List ν → Option (Entry κ)
  names : List ν → List ν
  root : get [] = some .directory
  mem_names : ∀ name parent, name ∈ names parent ↔ (get (name :: parent)).isSome = true
  closed : ∀ name parent, (get (name :: parent)).isSome = true → get parent = some .directory

namespace FileTree

variable {ν κ : Type} {t : FileTree ν κ} {name : ν} {path parent : List ν}
  {value : Option (Entry κ)} {content : κ}

theorem get_cons_of_ne_directory (h : t.get parent ≠ some .directory) :
    t.get (name :: parent) = none := by
  by_contra hentry
  exact h (t.closed name parent (Option.isSome_iff_ne_none.mpr hentry))

/-- Nothing lies below a path that is not a directory. -/
theorem get_append_of_ne_directory (h : t.get path ≠ some .directory) {below : List ν}
    (hbelow : below ≠ []) : t.get (below ++ path) = none := by
  induction below with
  | nil => exact absurd rfl hbelow
  | cons name below ih =>
    refine get_cons_of_ne_directory ?_
    by_cases hnil : below = []
    · rw [hnil]
      exact h
    · change t.get (below ++ path) ≠ some .directory
      rw [ih hnil]
      simp

/-- Above a directory there are only directories. -/
theorem get_of_mem_tails (h : t.get path = some .directory) {above : List ν}
    (habove : above ∈ path.tails) : t.get above = some .directory := by
  induction path with
  | nil =>
    rw [List.tails, List.mem_singleton] at habove
    rwa [habove]
  | cons name path ih =>
    rw [List.tails, List.mem_cons] at habove
    rcases habove with rfl | habove
    · exact h
    · exact ih (t.closed name path (by rw [h]; rfl)) habove

theorem names_of_ne_directory (h : t.get path ≠ some .directory) : t.names path = [] := by
  rw [List.eq_nil_iff_forall_not_mem]
  intro name hname
  rw [t.mem_names, get_cons_of_ne_directory h] at hname
  simp at hname

theorem names_of_file (h : t.get path = some (.file content)) : t.names path = [] :=
  names_of_ne_directory (by rw [h]; simp)

theorem get_of_not_mem_names (h : name ∉ t.names parent) : t.get (name :: parent) = none := by
  rwa [t.mem_names, Bool.not_eq_true, Option.isSome_eq_false_iff, Option.isNone_iff_eq_none] at h

/-- Whether an entry may be put at a path, or taken away from it: the parent is a directory,
and only a directory may have names below it. -/
def Admits (t : FileTree ν κ) (name : ν) (parent : List ν) (value : Option (Entry κ)) : Prop :=
  t.get parent = some .directory ∧ (value = some .directory ∨ t.names (name :: parent) = [])

theorem Admits.leaf (hparent : t.get parent = some .directory)
    (h : t.get (name :: parent) ≠ some .directory) : t.Admits name parent value :=
  ⟨hparent, Or.inr (names_of_ne_directory h)⟩

variable [DecidableEq ν] [DecidableEq κ]

instance (t : FileTree ν κ) (name : ν) (parent : List ν) (value : Option (Entry κ)) :
    Decidable (t.Admits name parent value) :=
  inferInstanceAs (Decidable (_ ∧ _))

/-- Put an entry at a path, or take it away, if the tree admits that. -/
def update (t : FileTree ν κ) (name : ν) (parent : List ν) (value : Option (Entry κ)) :
    FileTree ν κ :=
  if h : t.Admits name parent value then
    { get := fun path => if path = name :: parent then value else t.get path
      names := fun path =>
        if path = parent then
          (if value.isSome then [name] else []) ++ (t.names path).filter (fun n => n ≠ name)
        else t.names path
      root := by
        rw [if_neg (List.cons_ne_nil _ _).symm]
        exact t.root
      mem_names := by
        intro n path
        by_cases hpath : path = parent
        · subst hpath
          rw [if_pos rfl, List.mem_append, List.mem_filter, t.mem_names]
          by_cases hname : n = name
          · subst hname
            rw [if_pos rfl]
            cases hvalue : value.isSome <;> simp
          · rw [if_neg (show ¬ n :: path = name :: path by simp [hname])]
            cases hvalue : value.isSome <;> simp [hname]
        · rw [if_neg hpath, if_neg (by simp [hpath]), t.mem_names]
      closed := by
        intro n path hsome
        by_cases hself : n :: path = name :: parent
        · obtain ⟨rfl, rfl⟩ := List.cons.inj hself
          rw [if_neg (List.cons_ne_self _ _).symm]
          exact h.1
        · rw [if_neg hself] at hsome
          split
          · rename_i hpath
            -- the path has a name below it, so what is put there is a directory
            subst hpath
            refine h.2.resolve_right fun hnil => ?_
            have hmem := (t.mem_names n _).mpr hsome
            rw [hnil] at hmem
            exact List.not_mem_nil hmem
          · exact t.closed n path hsome }
  else t

theorem get_update_self (h : t.Admits name parent value) :
    (t.update name parent value).get (name :: parent) = value := by
  unfold update
  rw [dif_pos h]
  exact if_pos rfl

theorem get_update_of_ne (h : path ≠ name :: parent) :
    (t.update name parent value).get path = t.get path := by
  unfold update
  split
  · exact if_neg h
  · rfl

theorem update_of_not_admits (h : ¬ t.Admits name parent value) :
    t.update name parent value = t := by
  unfold update
  rw [dif_neg h]

/-- Taking an entry away that is not there changes nothing. -/
theorem get_update_none (h : t.get (name :: parent) = none) :
    (t.update name parent none).get (name :: parent) = none := by
  unfold update
  split
  · exact if_pos rfl
  · exact h

theorem get_update (h : t.Admits name parent value) (path : List ν) :
    (t.update name parent value).get path =
      if path = name :: parent then value else t.get path := by
  unfold update
  rw [dif_pos h]

theorem names_update_of_ne (h : path ≠ parent) :
    (t.update name parent value).names path = t.names path := by
  unfold update
  split
  · exact if_neg h
  · rfl

/-- A tree with nothing but its root. -/
def empty : FileTree ν κ where
  get path := if path = [] then some .directory else none
  names _ := []
  root := if_pos rfl
  mem_names := by simp
  closed := by simp

/-- A tree with the directories of a path. -/
def directories : List ν → FileTree ν κ
  | [] => empty
  | name :: parent => (directories parent).update name parent (some .directory)

theorem get_directories (path : List ν) :
    (directories path : FileTree ν κ).get path = some .directory ∧
      ∀ longer : List ν, path.length < longer.length →
        (directories path : FileTree ν κ).get longer = none := by
  induction path with
  | nil =>
    refine ⟨(directories []).root, fun longer hlonger => if_neg ?_⟩
    rintro rfl
    exact absurd hlonger (Nat.lt_irrefl _)
  | cons name parent ih =>
    have hadmits : (directories parent : FileTree ν κ).Admits name parent (some .directory) :=
      ⟨ih.1, Or.inl rfl⟩
    refine ⟨get_update_self hadmits, fun longer hlonger => ?_⟩
    have hne : longer ≠ name :: parent := by
      rintro rfl
      exact absurd hlonger (Nat.lt_irrefl _)
    rw [directories, get_update_of_ne hne]
    refine ih.2 longer ?_
    rw [List.length_cons] at hlonger
    omega

end FileTree

end ConfigBackup.FileTrees
