import ConfigBackup.RevisionDisplay

/-!
The rendered difference of two previews. A unified diff is read back line by line, and the kind
of a line is inferred from its first characters, which a configuration line can imitate.
-/

namespace ConfigBackup.RenderedDiff

open CodePoints RevisionDisplay

section Program

inductive Tag
  | equal | delete | insert
deriving DecidableEq, Repr

/-- A line of one text or of both. -/
structure Op where
  tag : Tag
  line : PyText
deriving DecidableEq, Repr

/-- Lines of a comparison that are shown together, and where they lie. -/
structure Hunk where
  range : PyText
  ops : List Op
deriving DecidableEq, Repr

/-- The comparison of two texts by `difflib`. It shows every change, with some of the lines
around them, and nothing for equal texts. -/
structure Difflib where
  compare : List PyText → List PyText → List Op
  hunks : List PyText → List PyText → List Hunk
  first : ∀ a b, ((compare a b).filter (fun op => op.tag ≠ .insert)).map Op.line = a
  second : ∀ a b, ((compare a b).filter (fun op => op.tag ≠ .delete)).map Op.line = b
  sublist : ∀ a b, ((hunks a b).flatMap Hunk.ops).Sublist (compare a b)
  changes : ∀ a b, ((hunks a b).flatMap Hunk.ops).filter (fun op => op.tag ≠ .equal) =
    (compare a b).filter (fun op => op.tag ≠ .equal)
  same : ∀ a, hunks a a = []

def renderOp (op : Op) : PyText :=
  match op.tag with
  | .equal => ofChar ' ' :: op.line
  | .delete => ofChar '-' :: op.line
  | .insert => ofChar '+' :: op.line

def hunkHeader (range : PyText) : PyText := ofString "@@ " ++ range ++ ofString " @@"

def renderHunk (hunk : Hunk) : List PyText := hunkHeader hunk.range :: hunk.ops.map renderOp

def fileHeaders (fromfile tofile : PyText) : List PyText :=
  [ofString "--- " ++ fromfile, ofString "+++ " ++ tofile]

/-- `difflib.unified_diff` without line terminators. -/
def unifiedDiff (difflib : Difflib) (a b : List PyText) (fromfile tofile : PyText) :
    List PyText :=
  if difflib.hunks a b = [] then []
  else fileHeaders fromfile tofile ++ (difflib.hunks a b).flatMap renderHunk

inductive DiffKind
  | file | hunk | added | removed | context
deriving DecidableEq, Repr

structure DiffLine where
  kind : DiffKind
  text : PyText
deriving DecidableEq, Repr

structure DisplayDiff where
  lines : List DiffLine
  truncated : Bool
deriving DecidableEq, Repr

def startsWith (line : PyText) (front : String) : Bool := (ofString front).isPrefixOf line

def lineKind (line : PyText) : DiffKind :=
  if startsWith line "---" || startsWith line "+++" then .file
  else if startsWith line "@@" then .hunk
  else if startsWith line "+" then .added
  else if startsWith line "-" then .removed
  else .context

/-- The loop over the generated lines. -/
def collectLines (maxLines : ℕ) : ℕ → List PyText → DisplayDiff
  | _, [] => ⟨[], false⟩
  | index, line :: rest =>
    if maxLines ≤ index then ⟨[], true⟩
    else
      let others := collectLines maxLines (index + 1) rest
      ⟨⟨lineKind line, line⟩ :: others.lines, others.truncated⟩

/-- `build_display_diff`. -/
def buildDisplayDiff {α : Type} (difflib : Difflib) (before after : DisplayContent α)
    (beforeLabel afterLabel : PyText) (maxLines : ℕ) : DisplayDiff :=
  collectLines maxLines 0
    (unifiedDiff difflib (splitlines before.text) (splitlines after.text) beforeLabel afterLabel)

end Program

section Kinds

/-- The kind that a line of a comparison should have. -/
def Tag.kind : Tag → DiffKind
  | .equal => .context
  | .delete => .removed
  | .insert => .added

/-- A change that its own prefix does not turn into a file header. -/
def Plain (op : Op) : Prop :=
  (op.tag = .delete → startsWith op.line "--" = false) ∧
    (op.tag = .insert → startsWith op.line "++" = false)

theorem startsWith_deleted (line : PyText) :
    startsWith (renderOp ⟨.delete, line⟩) "---" = startsWith line "--" := rfl

theorem startsWith_inserted (line : PyText) :
    startsWith (renderOp ⟨.insert, line⟩) "+++" = startsWith line "++" := rfl

theorem lineKind_renderOp {op : Op} (h : Plain op) : lineKind (renderOp op) = op.tag.kind := by
  obtain ⟨tag, line⟩ := op
  cases tag with
  | equal => rfl
  | delete =>
    have hplain : startsWith (renderOp ⟨.delete, line⟩) "---" = false := h.1 rfl
    unfold lineKind
    rw [hplain]
    rfl
  | insert =>
    have hplain : startsWith (renderOp ⟨.insert, line⟩) "+++" = false := h.2 rfl
    unfold lineKind
    rw [hplain]
    rfl

theorem lineKind_hunkHeader (range : PyText) : lineKind (hunkHeader range) = .hunk := rfl

theorem lineKind_fileHeaders {fromfile tofile line : PyText}
    (h : line ∈ fileHeaders fromfile tofile) : lineKind line = .file := by
  rcases List.mem_cons.mp h with rfl | h
  · rfl
  · rw [List.mem_singleton.mp h]
    rfl

/-- A deleted line that begins with two dashes, or an inserted one with two plus signs, looks
like a file header. -/
theorem lineKind_of_not_plain {op : Op} (h : ¬ Plain op) : lineKind (renderOp op) = .file := by
  obtain ⟨tag, line⟩ := op
  unfold lineKind
  cases tag with
  | equal => exact absurd ⟨fun h => Tag.noConfusion h, fun h => Tag.noConfusion h⟩ h
  | delete =>
    have hdashes : startsWith (renderOp ⟨.delete, line⟩) "---" = true := by
      rw [startsWith_deleted]
      by_contra hplain
      exact h ⟨fun _ => eq_false_of_ne_true hplain, fun h => Tag.noConfusion h⟩
    rw [hdashes]
    rfl
  | insert =>
    have hplus : startsWith (renderOp ⟨.insert, line⟩) "+++" = true := by
      rw [startsWith_inserted]
      by_contra hplain
      exact h ⟨fun h => Tag.noConfusion h, fun _ => eq_false_of_ne_true hplain⟩
    rw [hplus]
    exact if_pos (Bool.or_true _)

end Kinds

section Collected

theorem collectLines_eq (maxLines index : ℕ) (lines : List PyText) :
    collectLines maxLines index lines =
      ⟨(lines.take (maxLines - index)).map fun line => ⟨lineKind line, line⟩,
        decide (maxLines - index < lines.length)⟩ := by
  induction lines generalizing index with
  | nil => simp [collectLines]
  | cons line rest ih =>
    unfold collectLines
    split
    · rename_i hle
      rw [Nat.sub_eq_zero_of_le hle]
      simp
    · rename_i hlt
      rw [ih]
      have hsub : maxLines - index = maxLines - (index + 1) + 1 := by omega
      rw [hsub]
      simp

/-- The texts of one kind. -/
def texts (kind : DiffKind) (lines : List DiffLine) : List PyText :=
  (lines.filter fun line => line.kind = kind).map DiffLine.text

theorem texts_append (kind : DiffKind) (front rest : List DiffLine) :
    texts kind (front ++ rest) = texts kind front ++ texts kind rest := by
  unfold texts
  rw [List.filter_append, List.map_append]

/-- The lines that a kind should show are those of the changes with that tag. -/
def taggedLines (tag : Tag) (ops : List Op) : List PyText :=
  (ops.filter fun op => op.tag = tag).map Op.line

/-- Every generated line with its kind. -/
def classified (lines : List PyText) : List DiffLine :=
  lines.map fun line => ⟨lineKind line, line⟩

theorem texts_classified_cons (kind : DiffKind) (line : PyText) (rest : List PyText) :
    texts kind (classified (line :: rest)) =
      if lineKind line = kind then line :: texts kind (classified rest)
      else texts kind (classified rest) := by
  unfold texts classified
  rw [List.map_cons, List.filter_cons]
  by_cases hkind : lineKind line = kind
  · simp [hkind]
  · simp [hkind]

theorem classified_append (front rest : List PyText) :
    classified (front ++ rest) = classified front ++ classified rest :=
  List.map_append

theorem texts_file_ops {ops : List Op} (h : ∀ op ∈ ops, Plain op) :
    texts .file (classified (ops.map renderOp)) = [] := by
  induction ops with
  | nil => rfl
  | cons op rest ih =>
    have hop : lineKind (renderOp op) = op.tag.kind := lineKind_renderOp (h op (by simp))
    have hkind : op.tag.kind ≠ .file := by cases op.tag <;> decide
    rw [List.map_cons, texts_classified_cons, hop, if_neg hkind]
    exact ih fun op hop => h op (List.mem_cons_of_mem _ hop)

theorem texts_tag_ops (tag : Tag) {ops : List Op} (h : ∀ op ∈ ops, Plain op) :
    (texts tag.kind (classified (ops.map renderOp))).map (List.drop 1) =
      taggedLines tag ops := by
  induction ops with
  | nil => rfl
  | cons op rest ih =>
    have hop : lineKind (renderOp op) = op.tag.kind := lineKind_renderOp (h op (by simp))
    have hrest := ih fun op hop => h op (List.mem_cons_of_mem _ hop)
    have hline : (renderOp op).drop 1 = op.line := by
      unfold renderOp
      cases op.tag <;> rfl
    rw [List.map_cons, texts_classified_cons, hop]
    unfold taggedLines at hrest ⊢
    by_cases htag : op.tag = tag
    · subst htag
      simp [hrest, hline]
    · have hkind : op.tag.kind ≠ tag.kind := by
        cases hop : op.tag <;> cases htag' : tag <;> simp_all [Tag.kind]
      simp [hrest, htag, hkind]

/-- Without an imitated header the body of a difference has no file line. -/
theorem texts_file_hunks {hunks : List Hunk} (h : ∀ op ∈ hunks.flatMap Hunk.ops, Plain op) :
    texts .file (classified (hunks.flatMap renderHunk)) = [] := by
  induction hunks with
  | nil => rfl
  | cons hunk rest ih =>
    rw [List.flatMap_cons, List.forall_mem_append] at h
    rw [List.flatMap_cons, classified_append, texts_append, ih h.2, List.append_nil]
    unfold renderHunk
    rw [texts_classified_cons, lineKind_hunkHeader]
    exact texts_file_ops h.1

theorem texts_tag_hunks (tag : Tag) {hunks : List Hunk}
    (h : ∀ op ∈ hunks.flatMap Hunk.ops, Plain op) :
    (texts tag.kind (classified (hunks.flatMap renderHunk))).map (List.drop 1) =
      taggedLines tag (hunks.flatMap Hunk.ops) := by
  induction hunks with
  | nil => rfl
  | cons hunk rest ih =>
    rw [List.flatMap_cons, List.forall_mem_append] at h
    have hheader : DiffKind.hunk ≠ tag.kind := by cases tag <;> decide
    have hops : taggedLines tag ((hunk :: rest).flatMap Hunk.ops) =
        taggedLines tag hunk.ops ++ taggedLines tag (rest.flatMap Hunk.ops) := by
      unfold taggedLines
      rw [List.flatMap_cons, List.filter_append, List.map_append]
    rw [hops, List.flatMap_cons, classified_append, texts_append, List.map_append, ih h.2]
    congr 1
    unfold renderHunk
    rw [texts_classified_cons, lineKind_hunkHeader, if_neg hheader]
    exact texts_tag_ops tag h.1

end Collected

section Faithfulness

variable {α : Type} (difflib : Difflib) (before after : DisplayContent α)
  (beforeLabel afterLabel : PyText)

/-- Two texts without a shown change are equal. -/
theorem eq_of_hunks_eq_nil {a b : List PyText} (h : difflib.hunks a b = []) : a = b := by
  have hchanges := difflib.changes a b
  rw [h] at hchanges
  have hequal : ∀ op ∈ difflib.compare a b, op.tag = .equal := by
    intro op hop
    have hnone := List.filter_eq_nil_iff.mp hchanges.symm op hop
    simpa using hnone
  have hfirst : (difflib.compare a b).filter (fun op => op.tag ≠ .insert) =
      difflib.compare a b :=
    List.filter_eq_self.mpr fun op hop => by rw [hequal op hop]; rfl
  have hsecond : (difflib.compare a b).filter (fun op => op.tag ≠ .delete) =
      difflib.compare a b :=
    List.filter_eq_self.mpr fun op hop => by rw [hequal op hop]; rfl
  calc
    a = (difflib.compare a b).map Op.line := by rw [← hfirst, difflib.first]
    _ = b := by rw [← hsecond, difflib.second]

theorem hunks_eq_nil_iff {a b : List PyText} : difflib.hunks a b = [] ↔ a = b := by
  constructor
  · exact eq_of_hunks_eq_nil difflib
  · rintro rfl
    exact difflib.same a

theorem taggedLines_filter (tag : Tag) (ops : List Op) (h : tag ≠ .equal) :
    taggedLines tag (ops.filter fun op => op.tag ≠ .equal) = taggedLines tag ops := by
  unfold taggedLines
  rw [List.filter_filter]
  congr 1
  apply List.filter_congr
  intro op _
  by_cases htag : op.tag = tag
  · simp [htag, h]
  · simp [htag]

/-- The changes that are shown are all changes. -/
theorem taggedLines_hunks (tag : Tag) (a b : List PyText) (h : tag ≠ .equal) :
    taggedLines tag ((difflib.hunks a b).flatMap Hunk.ops) =
      taggedLines tag (difflib.compare a b) := by
  rw [← taggedLines_filter tag _ h, difflib.changes, taggedLines_filter tag _ h]

theorem mem_hunks_of_change {a b : List PyText} {op : Op} (h : op ∈ difflib.compare a b)
    (htag : op.tag ≠ .equal) : op ∈ (difflib.hunks a b).flatMap Hunk.ops := by
  have hmem : op ∈ (difflib.compare a b).filter fun op => op.tag ≠ .equal :=
    List.mem_filter.mpr ⟨h, by simpa using htag⟩
  rw [← difflib.changes] at hmem
  exact (List.mem_filter.mp hmem).1

/-- All generated lines of the difference of two contents. -/
def generated : List PyText :=
  unifiedDiff difflib (splitlines before.text) (splitlines after.text) beforeLabel afterLabel

/-- The comparison that a difference shows. -/
def comparison : List Op := difflib.compare (splitlines before.text) (splitlines after.text)

def shownOps : List Op :=
  (difflib.hunks (splitlines before.text) (splitlines after.text)).flatMap Hunk.ops

/-- What a reader may rely on. -/
structure Faithful : Prop where
  files : ∀ maxLines, (generated difflib before after beforeLabel afterLabel).length ≤ maxLines →
    texts .file (buildDisplayDiff difflib before after beforeLabel afterLabel maxLines).lines =
      if splitlines before.text = splitlines after.text then []
      else fileHeaders beforeLabel afterLabel
  removed : ∀ maxLines,
    (generated difflib before after beforeLabel afterLabel).length ≤ maxLines →
    (texts .removed
      (buildDisplayDiff difflib before after beforeLabel afterLabel maxLines).lines).map
        (List.drop 1) = taggedLines .delete (comparison difflib before after)
  added : ∀ maxLines, (generated difflib before after beforeLabel afterLabel).length ≤ maxLines →
    (texts .added
      (buildDisplayDiff difflib before after beforeLabel afterLabel maxLines).lines).map
        (List.drop 1) = taggedLines .insert (comparison difflib before after)
  context : ∀ maxLines,
    (generated difflib before after beforeLabel afterLabel).length ≤ maxLines →
    (texts .context
      (buildDisplayDiff difflib before after beforeLabel afterLabel maxLines).lines).map
        (List.drop 1) = taggedLines .equal (shownOps difflib before after)
  unchanged : (taggedLines .equal (shownOps difflib before after)).Sublist
    (taggedLines .equal (comparison difflib before after))
  whole : ∀ maxLines, (generated difflib before after beforeLabel afterLabel).length ≤ maxLines →
    (buildDisplayDiff difflib before after beforeLabel afterLabel maxLines).truncated = false
  cut : ∀ maxLines enough,
    maxLines < (generated difflib before after beforeLabel afterLabel).length →
    (generated difflib before after beforeLabel afterLabel).length ≤ enough →
    buildDisplayDiff difflib before after beforeLabel afterLabel maxLines =
      ⟨(buildDisplayDiff difflib before after beforeLabel afterLabel enough).lines.take maxLines,
        true⟩

theorem buildDisplayDiff_eq (maxLines : ℕ) :
    buildDisplayDiff difflib before after beforeLabel afterLabel maxLines =
      ⟨(classified (generated difflib before after beforeLabel afterLabel)).take maxLines,
        decide (maxLines < (generated difflib before after beforeLabel afterLabel).length)⟩ := by
  unfold buildDisplayDiff
  rw [collectLines_eq, Nat.sub_zero, List.map_take]
  rfl

theorem lines_of_enough {maxLines : ℕ}
    (h : (generated difflib before after beforeLabel afterLabel).length ≤ maxLines) :
    (buildDisplayDiff difflib before after beforeLabel afterLabel maxLines).lines =
      classified (generated difflib before after beforeLabel afterLabel) := by
  rw [buildDisplayDiff_eq]
  apply List.take_of_length_le
  unfold classified
  rwa [List.length_map]

/-- The texts of a kind are those of the headers and those of the body. -/
theorem texts_generated (kind : DiffKind) (h : splitlines before.text ≠ splitlines after.text) :
    texts kind (classified (generated difflib before after beforeLabel afterLabel)) =
      texts kind (classified (fileHeaders beforeLabel afterLabel)) ++
        texts kind (classified ((difflib.hunks (splitlines before.text)
          (splitlines after.text)).flatMap renderHunk)) := by
  have hhunks : difflib.hunks (splitlines before.text) (splitlines after.text) ≠ [] :=
    fun hnil => h (eq_of_hunks_eq_nil difflib hnil)
  unfold generated unifiedDiff
  rw [if_neg hhunks, classified_append, texts_append]

theorem generated_of_same (h : splitlines before.text = splitlines after.text) :
    generated difflib before after beforeLabel afterLabel = [] := by
  unfold generated unifiedDiff
  rw [h, if_pos (difflib.same _)]

theorem shownOps_plain (h : ∀ op ∈ comparison difflib before after, Plain op) :
    ∀ op ∈ shownOps difflib before after, Plain op :=
  fun op hop => h op ((difflib.sublist _ _).subset hop)

/-- Every tag's lines are exactly those of its kind when no change imitates a header. -/
theorem tag_of_plain (h : ∀ op ∈ comparison difflib before after, Plain op) (tag : Tag) :
    (texts tag.kind (classified (generated difflib before after beforeLabel afterLabel))).map
      (List.drop 1) = taggedLines tag (shownOps difflib before after) := by
  have hshown := shownOps_plain difflib before after h
  by_cases hsame : splitlines before.text = splitlines after.text
  · rw [generated_of_same difflib before after _ _ hsame]
    unfold shownOps
    rw [hsame, difflib.same]
    rfl
  · rw [texts_generated difflib before after _ _ _ hsame, List.map_append]
    have hheaders : texts tag.kind (classified (fileHeaders beforeLabel afterLabel)) = [] := by
      cases tag <;> rfl
    rw [hheaders]
    exact texts_tag_hunks tag hshown

theorem files_of_plain (h : ∀ op ∈ comparison difflib before after, Plain op) :
    texts .file (classified (generated difflib before after beforeLabel afterLabel)) =
      if splitlines before.text = splitlines after.text then []
      else fileHeaders beforeLabel afterLabel := by
  by_cases hsame : splitlines before.text = splitlines after.text
  · rw [generated_of_same difflib before after _ _ hsame, if_pos hsame]
    rfl
  · have hbody := texts_file_hunks (shownOps_plain difflib before after h)
    rw [texts_generated difflib before after _ _ _ hsame, hbody, if_neg hsame,
      List.append_nil]
    rfl

theorem mem_texts_classified {line : PyText} {lines : List PyText} (h : line ∈ lines) :
    line ∈ texts (lineKind line) (classified lines) := by
  apply List.mem_map.mpr
  refine ⟨⟨lineKind line, line⟩, List.mem_filter.mpr ⟨?_, by simp⟩, rfl⟩
  exact List.mem_map_of_mem h

/-- A change that imitates a header adds a file line to the body. -/
theorem file_of_not_plain {op : Op} (hop : op ∈ comparison difflib before after)
    (hplain : ¬ Plain op) :
    renderOp op ∈ texts .file (classified ((difflib.hunks (splitlines before.text)
      (splitlines after.text)).flatMap renderHunk)) := by
  have htag : op.tag ≠ .equal := by
    intro hequal
    apply hplain
    constructor
    · intro hdelete
      exact absurd (hequal.symm.trans hdelete) (by decide)
    · intro hinsert
      exact absurd (hequal.symm.trans hinsert) (by decide)
  obtain ⟨hunk, hhunk, hmem⟩ :=
    List.mem_flatMap.mp (mem_hunks_of_change difflib hop htag)
  rw [← lineKind_of_not_plain hplain]
  apply mem_texts_classified
  apply List.mem_flatMap.mpr
  exact ⟨hunk, hhunk, List.mem_cons_of_mem _ (List.mem_map_of_mem hmem)⟩

/-- The rendered difference is faithful exactly when no deleted line begins with two dashes and
no inserted line with two plus signs. -/
theorem faithful_iff :
    Faithful difflib before after beforeLabel afterLabel ↔
      ∀ op ∈ comparison difflib before after, Plain op := by
  constructor
  · intro hfaithful op hop
    by_contra hplain
    have hbody := file_of_not_plain difflib before after hop hplain
    have hdiffer : splitlines before.text ≠ splitlines after.text := by
      intro hsame
      rw [(hunks_eq_nil_iff difflib).mpr hsame] at hbody
      exact absurd hbody (by simp [classified, texts])
    have hfiles := hfaithful.files _ (le_refl _)
    rw [lines_of_enough difflib before after _ _ (le_refl _), if_neg hdiffer,
      texts_generated difflib before after _ _ _ hdiffer] at hfiles
    have hheaders : texts .file (classified (fileHeaders beforeLabel afterLabel)) =
        fileHeaders beforeLabel afterLabel := rfl
    rw [hheaders, List.append_right_eq_self] at hfiles
    rw [hfiles] at hbody
    exact absurd hbody (by simp)
  · intro hplain
    have htag := tag_of_plain difflib before after beforeLabel afterLabel hplain
    constructor
    · intro maxLines henough
      rw [lines_of_enough difflib before after _ _ henough]
      exact files_of_plain difflib before after _ _ hplain
    · intro maxLines henough
      rw [lines_of_enough difflib before after _ _ henough]
      exact (htag .delete).trans (taggedLines_hunks difflib .delete _ _ (by decide))
    · intro maxLines henough
      rw [lines_of_enough difflib before after _ _ henough]
      exact (htag .insert).trans (taggedLines_hunks difflib .insert _ _ (by decide))
    · intro maxLines henough
      rw [lines_of_enough difflib before after _ _ henough]
      exact htag .equal
    · exact ((difflib.sublist _ _).filter _).map _
    · intro maxLines henough
      rw [buildDisplayDiff_eq]
      exact decide_eq_false (by omega)
    · intro maxLines enough hless henough
      rw [lines_of_enough difflib before after _ _ henough, buildDisplayDiff_eq]
      congr 1
      exact decide_eq_true hless

end Faithfulness

section ImitatedHeader

def plainCompare (a b : List PyText) : List Op :=
  if a = b then a.map fun line => ⟨.equal, line⟩
  else (a.map fun line => ⟨.delete, line⟩) ++ b.map fun line => ⟨.insert, line⟩

def plainHunks (a b : List PyText) : List Hunk :=
  if a = b then [] else [⟨ofString "-1 +1", plainCompare a b⟩]

theorem plainHunks_ops {a b : List PyText} (h : a ≠ b) :
    (plainHunks a b).flatMap Hunk.ops = plainCompare a b := by
  unfold plainHunks
  rw [if_neg h]
  exact List.append_nil _

/-- A comparison that replaces the whole text. -/
def replaceAll : Difflib where
  compare := plainCompare
  hunks := plainHunks
  first a b := by
    unfold plainCompare
    by_cases h : a = b
    · simp [h, List.filter_map, Function.comp_def]
    · simp [h, List.filter_map, Function.comp_def]
  second a b := by
    unfold plainCompare
    by_cases h : a = b
    · simp [h, List.filter_map, Function.comp_def]
    · simp [h, List.filter_map, Function.comp_def]
  sublist a b := by
    by_cases h : a = b
    · simp [plainHunks, h]
    · rw [plainHunks_ops h]
  changes a b := by
    by_cases h : a = b
    · simp [plainHunks, plainCompare, h]
    · rw [plainHunks_ops h]
  same a := by
    unfold plainHunks
    rw [if_pos rfl]

def contentOf (text : String) : DisplayContent Unit :=
  { artifact := none, text := ofString text, lines := [], size := text.length,
    displayedSize := text.length, truncated := false, rawHash := "" }

/-- Removing the line `--x` renders a third file header. -/
theorem faithful_counterexample :
    ¬ ∀ (difflib : Difflib) (before after : DisplayContent Unit)
      (beforeLabel afterLabel : PyText),
      Faithful difflib before after beforeLabel afterLabel := by
  intro hall
  have hfiles := (hall replaceAll (contentOf "--x") (contentOf "y") (ofString "before")
    (ofString "after")).files 5 (by decide +kernel)
  revert hfiles
  decide +kernel

end ImitatedHeader

end ConfigBackup.RenderedDiff
