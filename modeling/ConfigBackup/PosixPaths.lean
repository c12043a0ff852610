import ConfigBackup.Text

/-!
POSIX paths as the source language splits and joins them. Empty and dot components are
dropped when a path is taken apart, and joining the components gives a path with the same
components.
-/

namespace ConfigBackup.PosixPaths

open Text

/-- The components that `PurePosixPath` keeps. -/
def components (path : List Char) : List (List Char) :=
  (path.splitOn '/').filter (fun part => part != [] && part != ['.'])

/-- A component of a path that is taken apart. -/
def IsComponent (part : List Char) : Prop := part ≠ [] ∧ part ≠ ['.'] ∧ '/' ∉ part

theorem not_mem_of_mem_splitOn {separator : Char} {s piece : List Char}
    (h : piece ∈ s.splitOn separator) : separator ∉ piece := by
  induction s generalizing piece with
  | nil =>
    rw [List.splitOn_nil, List.mem_singleton] at h
    simp [h]
  | cons c rest ih =>
    rw [List.splitOn_cons_eq_if_modifyHead] at h
    split at h
    · rcases List.mem_cons.mp h with rfl | h
      · exact List.not_mem_nil
      · exact ih h
    · rename_i hc
      cases hrest : rest.splitOn separator with
      | nil => simp [hrest] at h
      | cons head tail =>
        rw [hrest, List.modifyHead_cons] at h
        rcases List.mem_cons.mp h with rfl | h
        · have hhead := ih (by rw [hrest]; exact List.mem_cons_self)
          simp only [List.mem_cons, not_or]
          exact ⟨fun heq => hc (by simp [heq]), hhead⟩
        · exact ih (by rw [hrest]; exact List.mem_cons_of_mem _ h)

theorem isComponent_of_mem {path part : List Char} (h : part ∈ components path) :
    IsComponent part := by
  obtain ⟨hmem, hpart⟩ := List.mem_filter.mp h
  simp only [Bool.and_eq_true, bne_iff_ne] at hpart
  exact ⟨hpart.1, hpart.2, not_mem_of_mem_splitOn hmem⟩

theorem components_append (front rest : List Char) :
    components (front ++ '/' :: rest) = components front ++ components rest := by
  unfold components
  rw [List.splitOn_append_cons_self, List.filter_append]

/-- Components in front of a path are its first components. -/
theorem components_cons {part rest : List Char} (h : IsComponent part) :
    components (part ++ '/' :: rest) = part :: components rest := by
  rw [components_append]
  unfold components
  rw [List.splitOn_eq_singleton h.2.2, List.filter_cons_of_pos (by simp [h.1, h.2.1])]
  rfl

theorem components_joinWith {parts : List (List Char)} (h : ∀ part ∈ parts, IsComponent part) :
    components (joinWith '/' parts) = parts := by
  unfold components joinWith
  cases parts with
  | nil => decide
  | cons part rest =>
    rw [List.splitOn_intercalate '/' (fun l hl => (h l hl).2.2) (List.cons_ne_nil _ _),
      List.filter_eq_self]
    intro other hother
    simp [(h other hother).1, (h other hother).2.1]

theorem joinWith_nil (separator : Char) : joinWith separator [] = [] := rfl

theorem joinWith_singleton (separator : Char) (part : List Char) :
    joinWith separator [part] = part := List.intercalate_singleton

theorem joinWith_cons_cons (separator : Char) (a b : List Char) (rest : List (List Char)) :
    joinWith separator (a :: b :: rest) = a ++ separator :: joinWith separator (b :: rest) := by
  unfold joinWith
  rw [List.intercalate_cons_cons]
  simp

theorem mem_of_mem_components {path part : List Char} {c : Char} (hpart : part ∈ components path)
    (hc : c ∈ part) : c ∈ path := by
  have hjoin : ['/'].intercalate (path.splitOn '/') = path := List.intercalate_splitOn '/'
  rw [← hjoin]
  have hsplit := (List.mem_filter.mp hpart).1
  generalize path.splitOn '/' = parts at hsplit
  induction parts with
  | nil => cases hsplit
  | cons first rest ih =>
    cases rest with
    | nil =>
      rw [List.intercalate_singleton]
      rwa [← List.mem_singleton.mp hsplit]
    | cons second rest =>
      rw [List.intercalate_cons_cons]
      rcases List.mem_cons.mp hsplit with rfl | hsplit
      · simp [hc]
      · exact List.mem_append_right _ (ih hsplit)

theorem mem_joinWith {separator c : Char} {parts : List (List Char)}
    (h : c ∈ joinWith separator parts) : c = separator ∨ ∃ part ∈ parts, c ∈ part := by
  induction parts with
  | nil => simp [joinWith] at h
  | cons first rest ih =>
    cases rest with
    | nil =>
      rw [joinWith, List.intercalate_singleton] at h
      exact Or.inr ⟨first, List.mem_cons_self, h⟩
    | cons second rest =>
      rw [joinWith_cons_cons, List.mem_append, List.mem_cons] at h
      rcases h with h | rfl | h
      · exact Or.inr ⟨first, List.mem_cons_self, h⟩
      · exact Or.inl rfl
      · rcases ih h with h | ⟨part, hpart, h⟩
        · exact Or.inl h
        · exact Or.inr ⟨part, List.mem_cons_of_mem _ hpart, h⟩

/-- A piece of a split text lies between separators or at an end. -/
theorem exists_eq_append_of_mem_splitOn {separator : Char} {s piece : List Char}
    (h : piece ∈ s.splitOn separator) :
    ∃ front rest, s = front ++ piece ++ rest ∧
      (front = [] ∨ ∃ front', front = front' ++ [separator]) ∧
      (rest = [] ∨ ∃ rest', rest = separator :: rest') := by
  have hjoin : [separator].intercalate (s.splitOn separator) = s :=
    List.intercalate_splitOn separator
  rw [← hjoin]
  generalize s.splitOn separator = parts at h
  induction parts with
  | nil => cases h
  | cons first parts ih =>
    cases parts with
    | nil =>
      refine ⟨[], [], ?_, Or.inl rfl, Or.inl rfl⟩
      rw [List.intercalate_singleton, List.mem_singleton.mp h]
      simp
    | cons second parts =>
      have hcons := joinWith_cons_cons separator first second parts
      unfold joinWith at hcons
      rw [hcons]
      rcases List.mem_cons.mp h with rfl | h
      · exact ⟨[], _, rfl, Or.inl rfl, Or.inr ⟨_, rfl⟩⟩
      · obtain ⟨front, rest, heq, hfront, hrest⟩ := ih h
        refine ⟨first ++ separator :: front, rest, ?_, Or.inr ?_, hrest⟩
        · rw [heq]
          simp
        · rcases hfront with rfl | ⟨front', rfl⟩
          · exact ⟨first, rfl⟩
          · exact ⟨first ++ separator :: front', by simp⟩

theorem mem_splitOn_of_eq_append {separator : Char} {piece front rest : List Char}
    (hpiece : separator ∉ piece) (hfront : front = [] ∨ ∃ front', front = front' ++ [separator])
    (hrest : rest = [] ∨ ∃ rest', rest = separator :: rest') :
    piece ∈ (front ++ piece ++ rest).splitOn separator := by
  have hlast : piece ∈ (piece ++ rest).splitOn separator := by
    rcases hrest with rfl | ⟨rest', rfl⟩
    · rw [List.append_nil, List.splitOn_eq_singleton hpiece]
      exact List.mem_singleton_self _
    · rw [List.splitOn_append_cons_self, List.splitOn_eq_singleton hpiece]
      exact List.mem_cons_self
  rcases hfront with rfl | ⟨front', rfl⟩
  · exact hlast
  · rw [List.append_assoc, List.append_assoc, List.singleton_append,
      List.splitOn_append_cons_self]
    exact List.mem_append_right _ hlast

theorem joinWith_concat {separator : Char} {parts : List (List Char)} (h : parts ≠ [])
    (part : List Char) :
    joinWith separator (parts ++ [part]) = joinWith separator parts ++ separator :: part := by
  induction parts with
  | nil => exact absurd rfl h
  | cons first parts ih =>
    cases parts with
    | nil =>
      rw [List.singleton_append, joinWith_cons_cons, joinWith_singleton, joinWith_singleton]
    | cons second parts =>
      rw [List.cons_append, List.cons_append, joinWith_cons_cons, ← List.cons_append,
        ih (List.cons_ne_nil _ _), joinWith_cons_cons]
      simp

/-- Joining a segment to a path that does not end in a slash. -/
theorem joinPath_joinWith {parts : List (List Char)} {part : List Char}
    (hparts : joinWith '/' parts = [] → parts = [])
    (hlast : (joinWith '/' parts).getLast? ≠ some '/') (hpart : part.head? ≠ some '/') :
    joinPath (joinWith '/' parts) part = joinWith '/' (parts ++ [part]) := by
  unfold joinPath
  rw [if_neg hpart]
  by_cases hnil : parts = []
  · rw [hnil, joinWith_nil, if_pos (Or.inl rfl), List.nil_append, List.nil_append,
      joinWith_singleton]
  · rw [if_neg, joinWith_concat hnil]
    rintro (h | h)
    · exact hnil (hparts h)
    · exact hlast h

theorem joinWith_concat_last {separator c : Char} {parts : List (List Char)} {part : List Char}
    (h : part.getLast? = some c) :
    (joinWith separator (parts ++ [part])).getLast? = some c := by
  by_cases hnil : parts = []
  · rw [hnil, List.nil_append, joinWith_singleton, h]
  · rw [joinWith_concat hnil, List.getLast?_append, List.getLast?_cons, h]
    rfl

/-- The slashes that `normpath` and `PurePosixPath` keep in front: two are kept, more than
two are one. -/
def rootOf (path : List Char) : List Char :=
  if path.head? = some '/' then
    if path[1]? = some '/' ∧ path[2]? ≠ some '/' then ['/', '/'] else ['/']
  else []

/-- `posixpath.normpath`. -/
def normpath (path : List Char) : List Char :=
  let root := rootOf path
  let parts := (path.splitOn '/').foldl (fun parts part =>
    if part = [] ∨ part = ['.'] then parts
    else if part ≠ ['.', '.'] ∨ (root = [] ∧ parts = []) ∨ parts.getLast? = some ['.', '.'] then
      parts ++ [part]
    else parts.dropLast) []
  if root ++ joinWith '/' parts = [] then ['.'] else root ++ joinWith '/' parts

/-- `PurePosixPath(path).parts`. -/
def pureParts (path : List Char) : List (List Char) :=
  if rootOf path = [] then components path else rootOf path :: components path

theorem rootOf_cons {path : List Char} (h : path.head? ≠ some '/') :
    rootOf ('/' :: path) = ['/'] := by
  unfold rootOf
  rw [List.head?_cons, if_pos rfl, if_neg]
  rintro ⟨hsecond, -⟩
  rw [List.getElem?_cons_succ, ← List.head?_eq_getElem?] at hsecond
  exact h hsecond

theorem components_slash (path : List Char) : components ('/' :: path) = components path := by
  have happend := components_append [] path
  rw [List.nil_append] at happend
  rw [happend]
  rfl

theorem pureParts_cons {path : List Char} (h : path.head? ≠ some '/') :
    pureParts ('/' :: path) = ['/'] :: components path := by
  unfold pureParts
  rw [rootOf_cons h, if_neg (List.cons_ne_nil _ _), components_slash]

/-- Without parent segments a path is normalised to its components. -/
theorem normpath_cons {path : List Char} (h : path.head? ≠ some '/')
    (hparents : ['.', '.'] ∉ path.splitOn '/') :
    normpath ('/' :: path) = '/' :: joinWith '/' (components path) := by
  have hfold : ∀ (parts acc : List (List Char)), ['.', '.'] ∉ parts →
      parts.foldl (fun parts part =>
        if part = [] ∨ part = ['.'] then parts
        else if part ≠ ['.', '.'] ∨ (['/'] = [] ∧ parts = []) ∨
          parts.getLast? = some ['.', '.'] then parts ++ [part]
        else parts.dropLast) acc =
      acc ++ parts.filter (fun part => part != [] && part != ['.']) := by
    intro parts
    induction parts with
    | nil => simp
    | cons part parts ih =>
      intro acc hmem
      rw [List.mem_cons, not_or] at hmem
      rw [List.foldl_cons, ih _ hmem.2]
      by_cases hpart : part = [] ∨ part = ['.']
      · rw [if_pos hpart, List.filter_cons_of_neg]
        rcases hpart with rfl | rfl <;> decide
      · rw [if_neg hpart, if_pos (Or.inl fun heq => hmem.1 heq.symm), List.filter_cons_of_pos]
        · simp
        · rw [not_or] at hpart
          simp [hpart.1, hpart.2]
  have hsplit : ('/' :: path).splitOn '/' = [] :: path.splitOn '/' := by
    have happend := List.splitOn_append_cons_self (a := '/') [] path
    rwa [List.nil_append, List.splitOn_nil] at happend
  unfold normpath
  dsimp only
  rw [rootOf_cons h, hsplit, hfold _ _ (by simp [hparents]), if_neg (by simp)]
  rfl

/-- The parts that a rooted path is normalised to are no parent segments. -/
theorem fold_normpath {root : List Char} (hroot : root ≠ []) (pieces acc : List (List Char))
    (hpieces : ∀ piece ∈ pieces, '/' ∉ piece)
    (hacc : ∀ part ∈ acc, IsComponent part ∧ part ≠ ['.', '.']) :
    ∀ part ∈ pieces.foldl (fun parts part =>
      if part = [] ∨ part = ['.'] then parts
      else if part ≠ ['.', '.'] ∨ (root = [] ∧ parts = []) ∨
        parts.getLast? = some ['.', '.'] then parts ++ [part]
      else parts.dropLast) acc, IsComponent part ∧ part ≠ ['.', '.'] := by
  induction pieces generalizing acc with
  | nil => exact hacc
  | cons piece pieces ih =>
    have hrest := fun other hother => hpieces other (List.mem_cons_of_mem _ hother)
    rw [List.foldl_cons]
    by_cases hskip : piece = [] ∨ piece = ['.']
    · rw [if_pos hskip]
      exact ih acc hrest hacc
    · rw [if_neg hskip]
      rw [not_or] at hskip
      by_cases hparent : piece = ['.', '.']
      · rw [if_neg]
        · exact ih _ hrest fun part hpart => hacc part (List.dropLast_subset _ hpart)
        · rintro (hne | ⟨hnil, -⟩ | hlast)
          · exact hne hparent
          · exact hroot hnil
          · exact (hacc _ (List.mem_of_getLast? hlast)).2 rfl
      · rw [if_pos (Or.inl hparent)]
        refine ih _ hrest fun part hpart => ?_
        rcases List.mem_append.mp hpart with hpart | hpart
        · exact hacc part hpart
        · rw [List.mem_singleton.mp hpart]
          exact ⟨⟨hskip.1, hskip.2, hpieces piece List.mem_cons_self⟩, hparent⟩

theorem components_root_append {path : List Char} (rest : List Char) :
    components (rootOf path ++ rest) = components rest := by
  unfold rootOf
  split
  · split
    · change components ('/' :: '/' :: rest) = components rest
      rw [components_slash, components_slash]
    · exact components_slash rest
  · rfl

/-- A rooted path that is normalised has no parent segment. -/
theorem not_mem_components_normpath {path : List Char} (hroot : rootOf path ≠ []) :
    ['.', '.'] ∉ components (normpath path) := by
  have hparts := fold_normpath hroot (path.splitOn '/') []
    (fun piece hpiece => not_mem_of_mem_splitOn hpiece) nofun
  intro hmem
  unfold normpath at hmem
  dsimp only at hmem
  rw [if_neg (by simp [hroot]), components_root_append,
    components_joinWith fun part hpart => (hparts part hpart).1] at hmem
  exact (hparts _ hmem).2 rfl
example : components "a//b/./c/".toList = [['a'], ['b'], ['c']] ∧
    normpath "/a//b/../c".toList = "/a/c".toList := by decide

end ConfigBackup.PosixPaths
