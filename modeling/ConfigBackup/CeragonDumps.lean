import ConfigBackup.BackupPipeline
import ConfigBackup.JoinedLines

/-!
Change detection on the configuration dumps of a Ceragon radio. The normal form drops lines
that every export changes and two tables, each from its name line to its closing line. A table
that is never closed takes the rest of the dump with it.
-/

namespace ConfigBackup.CeragonDumps

open TextLines JoinedLines

abbrev Bytes := List UInt8

section Program

/-- The bytes of an ASCII literal. -/
def ascii (text : String) : Bytes := text.toList.map fun c => UInt8.ofNat c.toNat

def isNewline (c : UInt8) : Bool := c == 10 || c == 13

/-- `bytes.isspace`. -/
def isSpace (c : UInt8) : Bool := c == 32 || (9 ≤ c && c ≤ 13)

def lower (c : UInt8) : UInt8 := if 65 ≤ c && c ≤ 90 then c + 32 else c

/-- `content.splitlines()`. -/
def splitlines (content : Bytes) : List Bytes :=
  splitLines isNewline (fun c => c == 13) (fun c => c == 10) content

def volatileAssignmentPrefixes : List Bytes :=
  [ascii "creation_date_time", ascii "-signature",
    ascii "configuration-table-file-transfer-config.",
    ascii "configuration-table-file-transfer-log-status."]

def volatileTableNames : List Bytes :=
  [ascii "configuration-table-file-transfer-config",
    ascii "configuration-table-file-transfer-log-status"]

/-- `lowered.startswith(self._volatile_assignment_prefixes)`. -/
def isVolatileAssignment (line : Bytes) : Bool :=
  volatileAssignmentPrefixes.any fun start => start.isPrefixOf (line.map lower)

def isVolatileTable (line : Bytes) : Bool := volatileTableNames.contains line

def closing : Bytes := ascii "%%%"

/-- The loop over the lines; the flag is `skip_table_rows`. -/
def normalizedLines : Bool → List Bytes → List Bytes
  | _, [] => []
  | skipTableRows, rawLine :: rest =>
    let line := trimEnd isSpace rawLine
    if isVolatileAssignment line then normalizedLines skipTableRows rest
    else if isVolatileTable line then normalizedLines true rest
    else if skipTableRows then
      if line = closing then normalizedLines false rest else normalizedLines skipTableRows rest
    else line :: normalizedLines skipTableRows rest

/-- `CeragonIP50Driver.normalize`. -/
def normalize (artifact : BackupPipeline.CollectedArtifact) : Bytes :=
  if artifact.artifactType ≠ "configuration_dump" then artifact.content
  else
    let normalized := normalizedLines false (splitlines artifact.content)
    trim isSpace (joinLines 10 normalized) ++ [10]

end Program

section Regions

/-- The lines of a dump without the white space at their ends. -/
def dumpLines (content : Bytes) : List Bytes := (splitlines content).map (trimEnd isSpace)

/-- Among the lines since the last closing line there is the name of a volatile table. -/
def openTable (front : List Bytes) : Bool :=
  (front.rtakeWhile fun line => line ≠ closing).any isVolatileTable

/-- The line between `front` and `back` belongs to a volatile table: it is the name line, or a
name line stands before it and the first closing line after that name does not. -/
def InTable (front : List Bytes) (line : Bytes) (back : List Bytes) : Prop :=
  isVolatileTable line = true ∨ openTable front = true ∧ closing ∈ line :: back

instance (front : List Bytes) (line : Bytes) (back : List Bytes) :
    Decidable (InTable front line back) := inferInstanceAs (Decidable (_ ∨ _))

/-- The lines that a change of the configuration shows in. -/
def outsideLines : List Bytes → List Bytes → List Bytes
  | _, [] => []
  | front, line :: back =>
    if isVolatileAssignment line ∨ InTable front line back then
      outsideLines (front ++ [line]) back
    else line :: outsideLines (front ++ [line]) back

/-- A line after the name of a table that is never closed, which is not volatile itself. -/
def Swallowed (front : List Bytes) (line : Bytes) (back : List Bytes) : Prop :=
  isVolatileAssignment line = false ∧ isVolatileTable line = false ∧
    openTable front = true ∧ closing ∉ line :: back

/-- The normal form of a dump has all lines outside the volatile regions and no others. -/
def KeepsEveryLine (artifact : BackupPipeline.CollectedArtifact) : Prop :=
  normalize artifact =
    trim isSpace (joinLines 10 (outsideLines [] (dumpLines artifact.content))) ++ [10]

/-- Nothing but blank lines is swallowed. -/
def SwallowsNothing (content : Bytes) : Prop :=
  ∀ front line back, dumpLines content = front ++ line :: back → Swallowed front line back →
    line = []

end Regions

section Machine

variable {front back : List Bytes} {line : Bytes}

theorem closing_plain : isVolatileAssignment closing = false ∧ isVolatileTable closing = false := by
  decide +kernel

theorem openTable_closing (front : List Bytes) : openTable (front ++ [closing]) = false := by
  unfold openTable
  rw [List.rtakeWhile_concat_neg _ _ _ (by simp)]
  rfl

theorem openTable_concat (h : line ≠ closing) :
    openTable (front ++ [line]) = (openTable front || isVolatileTable line) := by
  unfold openTable
  rw [List.rtakeWhile_concat_pos _ _ _ (by simpa using h), List.any_append]
  simp

/-- No name of a table begins with the start of a volatile assignment. -/
theorem not_isVolatileTable (h : isVolatileAssignment line = true) :
    isVolatileTable line = false := by
  by_contra htable
  rw [Bool.not_eq_false] at htable
  have hnames : ∀ name ∈ volatileTableNames, isVolatileAssignment name = false := by
    decide +kernel
  have hname := hnames line (List.contains_iff_mem.mp htable)
  rw [h] at hname
  cases hname

/-- The flag of the loop tells whether a table is open. -/
theorem openTable_volatile (h : isVolatileAssignment line = true) :
    openTable (front ++ [line]) = openTable front := by
  have hclosing : line ≠ closing := by
    rintro rfl
    rw [closing_plain.1] at h
    cases h
  rw [openTable_concat hclosing, not_isVolatileTable h, Bool.or_false]

theorem openTable_table (h : isVolatileTable line = true) :
    openTable (front ++ [line]) = true := by
  have hclosing : line ≠ closing := by
    rintro rfl
    rw [closing_plain.2] at h
    cases h
  rw [openTable_concat hclosing, h, Bool.or_true]

theorem openTable_plain (h : isVolatileTable line = false) (hclosing : line ≠ closing) :
    openTable (front ++ [line]) = openTable front := by
  rw [openTable_concat hclosing, h, Bool.or_false]

/-- In a table that is never closed the loop keeps nothing. -/
theorem normalizedLines_unclosed {rawLines : List Bytes}
    (h : closing ∉ rawLines.map (trimEnd isSpace)) : normalizedLines true rawLines = [] := by
  induction rawLines with
  | nil => rfl
  | cons rawLine rest ih =>
    rw [List.map_cons, List.mem_cons, not_or] at h
    have hrest := ih h.2
    unfold normalizedLines
    dsimp only
    split
    · exact hrest
    · split
      · exact hrest
      · rw [if_pos rfl, if_neg (Ne.symm h.1)]
        exact hrest

end Machine

section Splitting

/-- One of the lines is swallowed, after the lines of `front`. -/
def SwallowedIn (front lines : List Bytes) (line : Bytes) : Prop :=
  ∃ before back, lines = before ++ line :: back ∧ Swallowed (front ++ before) line back

theorem not_swallowedIn_nil (front : List Bytes) (line : Bytes) :
    ¬ SwallowedIn front [] line := by
  rintro ⟨before, back, hsplit, -⟩
  exact absurd hsplit (by simp)

theorem swallowedIn_cons (front rest : List Bytes) (first line : Bytes) :
    SwallowedIn front (first :: rest) line ↔
      line = first ∧ Swallowed front first rest ∨ SwallowedIn (front ++ [first]) rest line := by
  constructor
  · rintro ⟨before, back, hsplit, hswallowed⟩
    cases before with
    | nil =>
      rw [List.nil_append, List.cons.injEq] at hsplit
      obtain ⟨rfl, rfl⟩ := hsplit
      rw [List.append_nil] at hswallowed
      exact Or.inl ⟨rfl, hswallowed⟩
    | cons head before =>
      rw [List.cons_append, List.cons.injEq] at hsplit
      obtain ⟨rfl, rfl⟩ := hsplit
      rw [List.append_cons] at hswallowed
      exact Or.inr ⟨before, back, rfl, hswallowed⟩
  · rintro (⟨rfl, hswallowed⟩ | ⟨before, back, rfl, hswallowed⟩)
    · refine ⟨[], rest, rfl, ?_⟩
      rwa [List.append_nil]
    · refine ⟨first :: before, back, rfl, ?_⟩
      rwa [List.append_cons]

theorem outsideLines_drop {front back : List Bytes} {line : Bytes}
    (h : isVolatileAssignment line = true ∨ InTable front line back) :
    outsideLines front (line :: back) = outsideLines (front ++ [line]) back :=
  if_pos h

theorem outsideLines_keep {front back : List Bytes} {line : Bytes}
    (hvolatile : isVolatileAssignment line = false) (htable : isVolatileTable line = false)
    (h : ¬ (openTable front = true ∧ closing ∈ line :: back)) :
    outsideLines front (line :: back) = line :: outsideLines (front ++ [line]) back := by
  apply if_neg
  rintro (hline | hline | hline)
  · rw [hvolatile] at hline
    cases hline
  · rw [htable] at hline
    cases hline
  · exact h hline

/-- The lines outside the regions are those that the loop keeps, followed by the swallowed
ones. -/
theorem outsideLines_eq (front rawLines : List Bytes) :
    ∃ swallowed,
      outsideLines front (rawLines.map (trimEnd isSpace)) =
        normalizedLines (openTable front) rawLines ++ swallowed ∧
      ∀ line, line ∈ swallowed ↔
        SwallowedIn front (rawLines.map (trimEnd isSpace)) line := by
  induction rawLines generalizing front with
  | nil =>
    exact ⟨[], rfl, fun line =>
      ⟨fun h => absurd h List.not_mem_nil, fun h => absurd h (not_swallowedIn_nil front line)⟩⟩
  | cons rawLine rest ih =>
    rw [List.map_cons]
    obtain ⟨swallowed, hlines, hmem⟩ := ih (front ++ [trimEnd isSpace rawLine])
    unfold normalizedLines
    dsimp only
    generalize trimEnd isSpace rawLine = line at hlines hmem ⊢
    -- a line that is not swallowed leaves the swallowed lines as they are
    have hsame : ¬ Swallowed front line (rest.map (trimEnd isSpace)) → ∀ other,
        other ∈ swallowed ↔
          SwallowedIn front (line :: rest.map (trimEnd isSpace)) other := by
      intro hnot other
      rw [hmem, swallowedIn_cons]
      exact ⟨Or.inr, fun h => h.resolve_left fun h => hnot h.2⟩
    by_cases hvolatile : isVolatileAssignment line = true
    · rw [outsideLines_drop (Or.inl hvolatile), if_pos hvolatile, hlines,
        openTable_volatile hvolatile]
      exact ⟨swallowed, rfl, hsame fun h => Bool.false_ne_true (h.1.symm.trans hvolatile)⟩
    rw [if_neg hvolatile]
    by_cases htable : isVolatileTable line = true
    · rw [outsideLines_drop (Or.inr (Or.inl htable)), if_pos htable, hlines,
        openTable_table htable]
      exact ⟨swallowed, rfl, hsame fun h => Bool.false_ne_true (h.2.1.symm.trans htable)⟩
    rw [if_neg htable]
    rw [Bool.not_eq_true] at hvolatile htable
    by_cases hopen : openTable front = true
    · rw [if_pos hopen]
      by_cases hcloses : closing ∈ line :: rest.map (trimEnd isSpace)
      · rw [outsideLines_drop (Or.inr (Or.inr ⟨hopen, hcloses⟩)), hlines]
        refine ⟨swallowed, ?_, hsame fun h => h.2.2.2 hcloses⟩
        by_cases hline : line = closing
        · rw [if_pos hline, hline, openTable_closing]
        · rw [if_neg hline, openTable_plain htable hline]
      · have hline : line ≠ closing := fun h => hcloses (h ▸ List.mem_cons_self)
        have hrest : closing ∉ rest.map (trimEnd isSpace) := fun h =>
          hcloses (List.mem_cons_of_mem _ h)
        rw [outsideLines_keep hvolatile htable fun h => hcloses h.2, if_neg hline, hlines,
          openTable_plain htable hline, hopen, normalizedLines_unclosed hrest]
        refine ⟨line :: swallowed, rfl, fun other => ?_⟩
        rw [List.mem_cons, hmem, swallowedIn_cons]
        exact or_congr ⟨fun h => ⟨h, hvolatile, htable, hopen, hcloses⟩, fun h => h.1⟩ Iff.rfl
    · have hkept : openTable (front ++ [line]) = openTable front := by
        by_cases hline : line = closing
        · rw [hline, openTable_closing]
          exact (Bool.not_eq_true _ ▸ hopen).symm
        · exact openTable_plain htable hline
      rw [outsideLines_keep hvolatile htable fun h => hopen h.1, if_neg hopen, hlines, hkept]
      exact ⟨swallowed, rfl, hsame fun h => hopen h.2.2.1⟩

end Splitting

section Normalization

open BackupPipeline (CollectedArtifact)

theorem outsideLines_subset (front lines : List Bytes) : outsideLines front lines ⊆ lines := by
  induction lines generalizing front with
  | nil => exact List.Subset.refl _
  | cons line back ih =>
    unfold outsideLines
    split
    · exact List.Subset.trans (ih _) (List.subset_cons_self _ _)
    · exact List.cons_subset_cons _ (ih _)

theorem trimEnd_of_mem_dumpLines {content line : Bytes} (h : line ∈ dumpLines content) :
    trimEnd isSpace line = line := by
  obtain ⟨rawLine, -, rfl⟩ := List.mem_map.mp h
  exact trimEnd_trimEnd rawLine

/-- A line of a dump has no line break in it. -/
theorem newline_not_mem {content line : Bytes} (h : line ∈ dumpLines content) :
    (10 : UInt8) ∉ line := by
  obtain ⟨rawLine, hraw, rfl⟩ := List.mem_map.mp h
  intro hmem
  have hbreak := not_isBreak_of_mem hraw 10 ((List.rdropWhile_prefix _ _).subset hmem)
  exact absurd hbreak (by decide)

theorem trim_joinLines_append {kept swallowed : List Bytes}
    (hends : ∀ line ∈ kept ++ swallowed, trimEnd isSpace line = line) :
    trim isSpace (joinLines 10 kept) = trim isSpace (joinLines 10 (kept ++ swallowed)) ↔
      ∀ line ∈ swallowed, line = [] := by
  constructor
  · intro h line hline
    have hvisible := congrArg (visible isSpace) h
    rw [visible_trim, visible_trim, visible_joinLines (by decide),
      visible_joinLines (by decide), List.flatMap_append] at hvisible
    have hnone : swallowed.flatMap (visible isSpace) = [] :=
      List.append_right_eq_self.mp hvisible.symm
    have hblank := all_of_visible_eq_nil (List.flatMap_eq_nil_iff.mp hnone line hline)
    exact eq_nil_of_all (hends line (List.mem_append_right _ hline)) hblank
  · intro h
    have hblank : ∀ line ∈ swallowed, line.all isSpace = true := by
      intro line hline
      rw [h line hline]
      rfl
    rw [trim_joinLines (by decide) hends, trimLines_append hblank]
    exact trim_joinLines (by decide) fun line hline => hends line (List.mem_append_left _ hline)

/-- A dump is normalized faithfully exactly when nothing but blank lines is swallowed. -/
theorem keepsEveryLine_iff (artifact : CollectedArtifact)
    (h : artifact.artifactType = "configuration_dump") :
    KeepsEveryLine artifact ↔ SwallowsNothing artifact.content := by
  obtain ⟨swallowed, hlines, hmem⟩ := outsideLines_eq [] (splitlines artifact.content)
  have hsub := outsideLines_subset [] (dumpLines artifact.content)
  unfold KeepsEveryLine normalize SwallowsNothing
  rw [if_neg (not_not_intro h)]
  dsimp only
  unfold dumpLines at hsub ⊢
  rw [hlines] at hsub ⊢
  rw [List.append_left_inj]
  have hopen : openTable [] = false := rfl
  rw [hopen] at hsub ⊢
  rw [trim_joinLines_append fun line hline => trimEnd_of_mem_dumpLines (hsub hline)]
  constructor
  · intro hblank front line back hsplit hswallowed
    exact hblank line ((hmem line).mpr ⟨front, back, hsplit, hswallowed⟩)
  · intro hnothing line hline
    obtain ⟨before, back, hsplit, hswallowed⟩ := (hmem line).mp hline
    exact hnothing before line back hsplit hswallowed

/-- The lines that two dumps are compared by. -/
def comparedLines (artifact : CollectedArtifact) : List Bytes :=
  trimLines isSpace (outsideLines [] (dumpLines artifact.content))

/-- Two dumps keep their lines, and a difference between these shows. -/
structure DetectsChanges (first second : CollectedArtifact) : Prop where
  keepsFirst : KeepsEveryLine first
  keepsSecond : KeepsEveryLine second
  differs : comparedLines first ≠ comparedLines second → normalize first ≠ normalize second

theorem normalize_ne {first second : CollectedArtifact} (hfirst : KeepsEveryLine first)
    (hsecond : KeepsEveryLine second) (h : comparedLines first ≠ comparedLines second) :
    normalize first ≠ normalize second := by
  intro hsame
  apply h
  rw [hfirst, hsecond, List.append_left_inj] at hsame
  have hsub (artifact : CollectedArtifact) :=
    outsideLines_subset [] (dumpLines artifact.content)
  exact trimLines_inj (by decide) (fun line hline => trimEnd_of_mem_dumpLines (hsub first hline))
    (fun line hline => trimEnd_of_mem_dumpLines (hsub second hline))
    (fun line hline => newline_not_mem (hsub first hline))
    (fun line hline => newline_not_mem (hsub second hline)) hsame

/-- Change detection loses nothing exactly when no configuration line follows the name of a
table that is not closed any more. -/
theorem detectsChanges_iff (first second : CollectedArtifact)
    (hfirst : first.artifactType = "configuration_dump")
    (hsecond : second.artifactType = "configuration_dump") :
    DetectsChanges first second ↔
      SwallowsNothing first.content ∧ SwallowsNothing second.content := by
  constructor
  · intro h
    exact ⟨(keepsEveryLine_iff first hfirst).mp h.keepsFirst,
      (keepsEveryLine_iff second hsecond).mp h.keepsSecond⟩
  · rintro ⟨hnone, hnone'⟩
    have hkept := (keepsEveryLine_iff first hfirst).mpr hnone
    have hkept' := (keepsEveryLine_iff second hsecond).mpr hnone'
    exact ⟨hkept, hkept', normalize_ne hkept hkept'⟩

def dumpOf (content : String) : CollectedArtifact :=
  { artifactType := "configuration_dump", filename := "config_dump.txt",
    content := ascii content, format := "ceragon_ceraos_config_dump", isPrimary := true }

theorem detectsChanges_iff_closed :
    DetectsChanges (dumpOf "a=1\ncreation_date_time=5") (dumpOf "a=2") ↔
      SwallowsNothing (dumpOf "a=1\ncreation_date_time=5").content ∧
        SwallowsNothing (dumpOf "a=2").content :=
  detectsChanges_iff _ _ rfl rfl

/-- In two truncated dumps a change after the name of a table is lost. -/
theorem detectsChanges_counterexample :
    ¬ ∀ first second : CollectedArtifact, first.artifactType = "configuration_dump" →
      second.artifactType = "configuration_dump" → DetectsChanges first second := by
  intro hall
  have hdetects := hall (dumpOf "configuration-table-file-transfer-config\na=1")
    (dumpOf "configuration-table-file-transfer-config\na=2") rfl rfl
  have hdiffer : comparedLines (dumpOf "configuration-table-file-transfer-config\na=1") ≠
      comparedLines (dumpOf "configuration-table-file-transfer-config\na=2") := by
    decide +kernel
  have hsame : normalize (dumpOf "configuration-table-file-transfer-config\na=1") =
      normalize (dumpOf "configuration-table-file-transfer-config\na=2") := by
    decide +kernel
  exact hdetects.differs hdiffer hsame

end Normalization

end ConfigBackup.CeragonDumps
