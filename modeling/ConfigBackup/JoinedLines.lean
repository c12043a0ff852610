import ConfigBackup.TextLines
import Mathlib.Data.List.DropRight

/-!
Lines that are joined by a separator and trimmed as a whole. Trimming the joined text is the
same as dropping the blank lines at both ends and the blanks before the first line that is
left, so that the joined text determines the trimmed lines.
-/

namespace ConfigBackup.JoinedLines

variable {α : Type} (blank : α → Bool)

section Trimmed

def trimEnd (text : List α) : List α := text.rdropWhile blank

def trim (text : List α) : List α := trimEnd blank (text.dropWhile blank)

def joinLines (separator : α) (lines : List (List α)) : List α := [separator].intercalate lines

/-- What is left of a text when all blanks are taken out. -/
def visible (text : List α) : List α := text.filter fun c => !blank c

def trimFirstLines : List (List α) → List (List α)
  | [] => []
  | line :: rest => if line.all blank then trimFirstLines rest else line.dropWhile blank :: rest

/-- The lines of a trimmed text. -/
def trimLines (lines : List (List α)) : List (List α) :=
  (trimFirstLines blank lines).rdropWhile fun line => line.all blank

end Trimmed

section Blanks

variable {blank} {line text : List α} {lines : List (List α)}

theorem visible_dropWhile (text : List α) :
    visible blank (text.dropWhile blank) = visible blank text := by
  induction text with
  | nil => rfl
  | cons c rest ih =>
    by_cases hc : blank c = true
    · rw [List.dropWhile_cons_of_pos hc, ih]
      simp [visible, hc]
    · rw [List.dropWhile_cons_of_neg hc]

theorem visible_trimEnd (text : List α) :
    visible blank (trimEnd blank text) = visible blank text := by
  induction text using List.reverseRecOn with
  | nil => rfl
  | append_singleton front c ih =>
    unfold trimEnd at ih ⊢
    by_cases hc : blank c = true
    · rw [List.rdropWhile_concat_pos _ _ _ hc, ih]
      simp [visible, hc]
    · rw [List.rdropWhile_concat_neg _ _ _ hc]

theorem visible_trim (text : List α) : visible blank (trim blank text) = visible blank text :=
  (visible_trimEnd _).trans (visible_dropWhile text)

/-- A blank separator adds nothing to what is visible. -/
theorem visible_joinLines {separator : α} (h : blank separator = true) (lines : List (List α)) :
    visible blank (joinLines separator lines) = lines.flatMap (visible blank) := by
  unfold joinLines
  induction lines with
  | nil => rfl
  | cons line rest ih =>
    cases rest with
    | nil => simp
    | cons next more =>
      rw [List.intercalate_cons_cons, List.flatMap_cons, ← ih]
      simp [visible, h]

theorem all_of_visible_eq_nil (h : visible blank text = []) : text.all blank = true := by
  rw [List.all_eq_true]
  intro c hc
  have hnot := List.filter_eq_nil_iff.mp h c hc
  simpa using hnot

theorem eq_nil_of_all (hline : trimEnd blank line = line) (h : line.all blank = true) :
    line = [] := by
  rw [← hline]
  exact List.rdropWhile_eq_nil_iff.mpr (List.all_eq_true.mp h)

theorem trimEnd_trimEnd (text : List α) :
    trimEnd blank (trimEnd blank text) = trimEnd blank text :=
  List.rdropWhile_idempotent _ _

/-- Blanks in front of a line do not matter at its end. -/
theorem trimEnd_dropWhile (hline : trimEnd blank line = line) :
    trimEnd blank (line.dropWhile blank) = line.dropWhile blank := by
  apply List.rdropWhile_eq_self_iff.mpr
  intro hne hlast
  have hsplit : line.takeWhile blank ++ line.dropWhile blank = line :=
    List.takeWhile_append_dropWhile
  have hne' : line ≠ [] := by
    rintro rfl
    exact hne rfl
  apply List.rdropWhile_eq_self_iff.mp hline hne'
  have hgetLast : line.getLast hne' = (line.dropWhile blank).getLast hne := by
    rw [← List.getLast_append_of_right_ne_nil (line.takeWhile blank) _ hne]
    congr 1
    exact hsplit.symm
  rw [hgetLast]
  exact hlast

end Blanks

section Joined

variable {blank} {separator : α} {lines : List (List α)}

theorem joinLines_cons_cons (line next : List α) (rest : List (List α)) :
    joinLines separator (line :: next :: rest) =
      line ++ separator :: joinLines separator (next :: rest) :=
  List.intercalate_cons_cons.trans (List.append_assoc _ _ _)

theorem joinLines_concat (line : List α) (h : lines ≠ []) :
    joinLines separator (lines ++ [line]) =
      joinLines separator lines ++ separator :: line := by
  induction lines with
  | nil => exact absurd rfl h
  | cons first rest ih =>
    cases rest with
    | nil => simp [joinLines]
    | cons next more =>
      have hnext : next :: more ≠ [] := List.cons_ne_nil _ _
      rw [joinLines_cons_cons, List.append_assoc, List.cons_append (a := separator), ← ih hnext]
      exact joinLines_cons_cons first next (more ++ [line])

theorem dropWhile_joinLines (hblank : blank separator = true) (lines : List (List α)) :
    (joinLines separator lines).dropWhile blank =
      joinLines separator (trimFirstLines blank lines) := by
  induction lines with
  | nil => rfl
  | cons line rest ih =>
    unfold trimFirstLines
    cases rest with
    | nil =>
      unfold joinLines
      split
      · rename_i hall
        rw [List.intercalate_singleton,
          List.dropWhile_eq_nil_iff.mpr (List.all_eq_true.mp hall)]
        rfl
      · rw [List.intercalate_singleton, List.intercalate_singleton]
    | cons next more =>
      rw [joinLines_cons_cons]
      split
      · rename_i hall
        rw [List.dropWhile_append_of_pos (List.all_eq_true.mp hall),
          List.dropWhile_cons_of_pos hblank]
        exact ih
      · rename_i hall
        have hvisible : line.dropWhile blank ≠ [] := fun hnil =>
          hall (List.all_eq_true.mpr (List.dropWhile_eq_nil_iff.mp hnil))
        rw [joinLines_cons_cons, List.dropWhile_append, if_neg (by simpa using hvisible)]

/-- The lines that are left at the front end without blanks, as the given ones do. -/
theorem trimEnd_of_mem_trimFirstLines (hlines : ∀ line ∈ lines, trimEnd blank line = line) :
    ∀ line ∈ trimFirstLines blank lines, trimEnd blank line = line := by
  induction lines with
  | nil => exact hlines
  | cons first rest ih =>
    have hrest := fun line hline => hlines line (List.mem_cons_of_mem _ hline)
    unfold trimFirstLines
    split
    · exact ih hrest
    · intro line hline
      rcases List.mem_cons.mp hline with rfl | hline
      · exact trimEnd_dropWhile (hlines first List.mem_cons_self)
      · exact hrest line hline

theorem trimEnd_joinLines (hblank : blank separator = true)
    (hlines : ∀ line ∈ lines, trimEnd blank line = line) :
    trimEnd blank (joinLines separator lines) =
      joinLines separator (lines.rdropWhile fun line => line.all blank) := by
  induction lines using List.reverseRecOn with
  | nil => rfl
  | append_singleton front last ih =>
    have hlast : trimEnd blank last = last := hlines last (by simp)
    have hfront := ih fun line hline => hlines line (List.mem_append_left _ hline)
    by_cases hall : last.all blank = true
    · have hdrop : (front ++ [last]).rdropWhile (fun line => line.all blank) =
          front.rdropWhile fun line => line.all blank := List.rdropWhile_concat_pos _ _ _ hall
      rw [hdrop, ← hfront]
      obtain rfl := eq_nil_of_all hlast hall
      cases front with
      | nil => rfl
      | cons first rest =>
        rw [joinLines_concat _ (by simp)]
        exact List.rdropWhile_concat_pos _ _ _ hblank
    · have hkeep : (front ++ [last]).rdropWhile (fun line => line.all blank) =
          front ++ [last] := List.rdropWhile_concat_neg _ _ _ hall
      rw [hkeep]
      have hne : last ≠ [] := by
        rintro rfl
        exact hall rfl
      have hvisible := List.rdropWhile_eq_self_iff.mp hlast hne
      cases front with
      | nil => simpa [joinLines] using hlast
      | cons first rest =>
        have hfirst : first :: rest ≠ [] := List.cons_ne_nil _ _
        rw [joinLines_concat last hfirst]
        apply List.rdropWhile_eq_self_iff.mpr
        intro hjoined
        rw [List.getLast_append_of_right_ne_nil _ _ (List.cons_ne_nil _ _),
          List.getLast_cons hne]
        exact hvisible

/-- Trimming the joined text trims its lines. -/
theorem trim_joinLines (hblank : blank separator = true)
    (hlines : ∀ line ∈ lines, trimEnd blank line = line) :
    trim blank (joinLines separator lines) = joinLines separator (trimLines blank lines) := by
  unfold trim trimLines
  rw [dropWhile_joinLines hblank,
    trimEnd_joinLines hblank (trimEnd_of_mem_trimFirstLines hlines)]

theorem joinLines_eq_nil (h : joinLines separator lines = []) : lines = [] ∨ lines = [[]] := by
  cases lines with
  | nil => exact Or.inl rfl
  | cons line rest =>
    cases rest with
    | nil =>
      unfold joinLines at h
      rw [List.intercalate_singleton] at h
      exact Or.inr (by rw [h])
    | cons next more =>
      rw [joinLines_cons_cons] at h
      exact absurd h (by simp)

/-- Lines without separators are determined by their joined text, unless it is empty. -/
theorem joinLines_inj [DecidableEq α] {others : List (List α)}
    (hlines : ∀ line ∈ lines, separator ∉ line) (hothers : ∀ line ∈ others, separator ∉ line)
    (hne : lines ≠ [[]]) (hne' : others ≠ [[]])
    (h : joinLines separator lines = joinLines separator others) : lines = others := by
  by_cases hnil : lines = []
  · subst hnil
    rcases joinLines_eq_nil h.symm with h | h
    · exact h.symm
    · exact absurd h hne'
  by_cases hnil' : others = []
  · subst hnil'
    rcases joinLines_eq_nil h with h | h
    · exact h
    · exact absurd h hne
  calc
    lines = (joinLines separator lines).splitOn separator :=
      (List.splitOn_intercalate separator hlines hnil).symm
    _ = (joinLines separator others).splitOn separator := by rw [h]
    _ = others := List.splitOn_intercalate separator hothers hnil'

theorem trimLines_ne_blank (lines : List (List α)) : trimLines blank lines ≠ [[]] := by
  intro h
  have hne : trimLines blank lines ≠ [] := by simp [h]
  have hlast := List.rdropWhile_last_not (fun line : List α => line.all blank)
    (trimFirstLines blank lines) hne
  have hblank : ((trimLines blank lines).getLast hne).all blank = true := by simp [h]
  exact hlast hblank

theorem exists_of_mem_trimFirstLines {line : List α} (h : line ∈ trimFirstLines blank lines) :
    ∃ whole ∈ lines, line ⊆ whole := by
  induction lines with
  | nil => exact absurd h List.not_mem_nil
  | cons first rest ih =>
    unfold trimFirstLines at h
    split at h
    · obtain ⟨whole, hwhole, hsub⟩ := ih h
      exact ⟨whole, List.mem_cons_of_mem _ hwhole, hsub⟩
    · rcases List.mem_cons.mp h with rfl | h
      · exact ⟨first, List.mem_cons_self, (List.dropWhile_suffix _).subset⟩
      · exact ⟨line, List.mem_cons_of_mem _ h, List.Subset.refl _⟩

/-- A line of the trimmed text is a part of one of the given lines. -/
theorem exists_of_mem_trimLines {line : List α} (h : line ∈ trimLines blank lines) :
    ∃ whole ∈ lines, line ⊆ whole :=
  exists_of_mem_trimFirstLines ((List.rdropWhile_prefix _ _).subset h)

/-- Different trimmed lines are told apart by the joined and trimmed texts. -/
theorem trimLines_inj [DecidableEq α] {others : List (List α)} (hblank : blank separator = true)
    (hends : ∀ line ∈ lines, trimEnd blank line = line)
    (hends' : ∀ line ∈ others, trimEnd blank line = line)
    (hlines : ∀ line ∈ lines, separator ∉ line) (hothers : ∀ line ∈ others, separator ∉ line)
    (h : trim blank (joinLines separator lines) = trim blank (joinLines separator others)) :
    trimLines blank lines = trimLines blank others := by
  rw [trim_joinLines hblank hends, trim_joinLines hblank hends'] at h
  apply joinLines_inj _ _ (trimLines_ne_blank lines) (trimLines_ne_blank others) h
  · intro line hline hsep
    obtain ⟨whole, hwhole, hsub⟩ := exists_of_mem_trimLines hline
    exact hlines whole hwhole (hsub hsep)
  · intro line hline hsep
    obtain ⟨whole, hwhole, hsub⟩ := exists_of_mem_trimLines hline
    exact hothers whole hwhole (hsub hsep)

theorem trimFirstLines_of_blank (h : ∀ line ∈ lines, line.all blank = true) :
    trimFirstLines blank lines = [] := by
  induction lines with
  | nil => rfl
  | cons line rest ih =>
    unfold trimFirstLines
    rw [if_pos (h line List.mem_cons_self)]
    exact ih fun line hline => h line (List.mem_cons_of_mem _ hline)

/-- Blank lines at the end leave no trace. -/
theorem trimLines_append {more : List (List α)} (h : ∀ line ∈ more, line.all blank = true) :
    trimLines blank (lines ++ more) = trimLines blank lines := by
  unfold trimLines
  have hfirst : trimFirstLines blank (lines ++ more) = trimFirstLines blank lines ∨
      trimFirstLines blank (lines ++ more) = trimFirstLines blank lines ++ more := by
    induction lines with
    | nil => exact Or.inl (trimFirstLines_of_blank h)
    | cons line rest ih =>
      rw [List.cons_append]
      unfold trimFirstLines
      by_cases hall : line.all blank = true
      · rw [if_pos hall, if_pos hall]
        exact ih
      · rw [if_neg hall, if_neg hall]
        exact Or.inr rfl
  rcases hfirst with hfirst | hfirst
  · rw [hfirst]
  · rw [hfirst]
    unfold List.rdropWhile
    rw [List.reverse_append,
      List.dropWhile_append_of_pos fun line hline => h line (List.mem_reverse.mp hline)]

end Joined

end ConfigBackup.JoinedLines
