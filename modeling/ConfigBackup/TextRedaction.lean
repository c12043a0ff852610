import ConfigBackup.SecretStatements

/-!
What the redaction of text configurations hides and what it leaves as it is: the values
of statements, and the lines without a keyword.
-/

namespace ConfigBackup.TextRedaction

open KeyPatterns SearchPatterns SecretPatterns SecretStatements Text

/-- A line in which no keyword of the expressions stands. -/
def Keyless (line : List Char) : Prop := ∀ word, IsPatternWord word → ¬ word <:+: line

def EndsLine (text : List Char) : Prop := text = [] ∨ text.getLast? = some '\n'

theorem keyless_of_map {line : List Char}
    (h : ∀ letters ∈ patternWords.map String.toList, ¬ letters <:+: line.map fold) :
    Keyless line := fun _ hword hinside => h _ hword (hinside.map fold)

def StartsLine (text : List Char) : Prop := text = [] ∨ text.head? = some '\n'

variable {w : Letters} {m : Masking Char} {front line back out : List Char}

theorem matches_nothing (hm : FindsWords m) (hline : Keyless line) (hback : StartsLine back)
    {init rest : List Char} {a : Char} (heq : line = init ++ a :: rest) (before : Option Char) :
    m.match? before (a :: (rest ++ back)) = none := by
  cases h : m.match? before (a :: (rest ++ back)) with
  | none => rfl
  | some found =>
    obtain ⟨lead, value, left⟩ := found
    have htext := Masking.append_of_match? h
    obtain ⟨word, more, hword, rfl⟩ := hm.begins h
    have hsplit : (a :: rest) ++ back = word ++ (more ++ (value ++ left)) := by
      rw [← List.append_assoc, htext, List.cons_append]
    rcases List.append_eq_append_iff.mp hsplit with ⟨beyond, rfl, hbeyond⟩ | ⟨beyond, hrest, -⟩
    · cases beyond with
      | nil => exact absurd ⟨init, [], by simp [heq]⟩ (hline _ hword)
      | cons c beyond =>
        rcases hback with rfl | hhead
        · simp at hbeyond
        · rw [hbeyond] at hhead
          obtain rfl : c = '\n' := by simpa using hhead
          exact absurd (by simp) (newline_not_mem_word hword)
    · exact absurd ⟨init, beyond, by simp [heq, hrest]⟩ (hline _ hword)

/-- The mask ends with a letter of no keyword. -/
theorem endsOnWord_of_out {text done rest : List Char}
    (h : m.Visits mask text ⟨done, out, rest⟩) (hout : EndsOnWord out) : EndsOnWord done := by
  obtain ⟨front, word, tail, rfl, hword, htail⟩ := hout
  have hletters : '>' ∉ word ++ tail := by
    have hwords : ∀ letters ∈ patternWords.map String.toList, fold '>' ∉ letters := by decide
    have hgap : ∀ {gap}, Blanks gap → '>' ∉ gap := fun hgap hmem =>
      absurd (hgap.2 _ hmem) (by decide)
    rintro hmem
    rcases List.mem_append.mp hmem with hmem | hmem
    · exact hwords _ hword (List.mem_map_of_mem hmem)
    · rcases htail with htail | ⟨gap, d, gap', rfl, hgap₁, hd, hgap₂⟩
      · exact hgap htail hmem
      · simp only [List.mem_append, List.mem_cons] at hmem
        rcases hmem with hmem | rfl | hmem
        · exact hgap hgap₁ hmem
        · exact absurd hd (by decide)
        · exact hgap hgap₂ hmem
  obtain ⟨front', rfl⟩ : word ++ tail <:+ done :=
    Masking.suffix_of_visits mask_eq hletters h ⟨front, rfl⟩
  exact ⟨front', word, tail, rfl, hword, htail⟩

theorem endsLine_out (hm : FindsWords m) (hfront : EndsLine front)
    {text rest : List Char} (h : m.Visits mask text ⟨front, out, rest⟩) : EndsLine out := by
  rcases hfront with rfl | hlast
  · exact .inl (Masking.out_eq_nil h)
  · obtain ⟨init, rfl⟩ := List.getLast?_eq_some_iff.mp hlast
    rcases Masking.last_step h with ⟨out', rfl, -⟩ | ⟨p, lead, value, -, hmatch, heq, -⟩
    · exact .inr (by simp)
    · obtain ⟨init', c, rfl, hc⟩ := hm.closes hmatch
      have hlast := congrArg List.getLast? heq
      obtain rfl : c = '\n' := by simpa [← List.append_assoc] using hlast
      exact absurd hc (by decide)

/-- A substitution that comes to a line without a keyword leaves it. -/
theorem sub_line (hm : FindsWords m) (hline : Keyless line) (hfront : EndsLine front)
    (hback : StartsLine back) (hends : ¬ EndsOnWord front)
    (h : m.Visits mask (front ++ (line ++ back)) ⟨front, out, line ++ back⟩) :
    ∃ back', m.sub mask (front ++ (line ++ back)) = out ++ (line ++ back') ∧ EndsLine out ∧
      ¬ EndsOnWord out ∧ StartsLine back' := by
  have hkeep : m.Reaches mask ⟨front, out, line ++ back⟩ ⟨front ++ line, out ++ line, back⟩ :=
    Masking.reaches_keep _ _ fun init a rest heq => matches_nothing hm hline hback heq _
  refine ⟨m.subFrom mask (front ++ line).getLast? 0 back, ?_, endsLine_out hm hfront h,
    fun hout => hends (endsOnWord_of_out h hout), ?_⟩
  · rw [Masking.sub_of_visits (h.trans hkeep), List.append_assoc]
  · rcases hback with rfl | hhead
    · exact .inl rfl
    · obtain ⟨rest, rfl⟩ := List.head?_eq_some_iff.mp hhead
      rw [Masking.subFrom_keep (hm.match?_eq_none (by decide))]
      exact .inr rfl

/-- No match of an expression for keys reaches into a line that follows no keyword. -/
theorem visits_line (hm : FindsKeys m) (hfront : EndsLine front) (hends : ¬ EndsOnWord front)
    (rest : List Char) : ∃ out, m.Visits mask (front ++ rest) ⟨front, out, rest⟩ := by
  rcases Masking.visits_or_crosses front rest with hvisits | ⟨p, lead, value, left, hcross⟩
  · exact hvisits
  · obtain ⟨ahead, rfl, hne, hcase⟩ := hcross.in_lead_or_value
    have hlast : ahead.getLast? = some '\n' := by
      rcases hfront with hnil | hlast
      · exact absurd (List.append_eq_nil_iff.mp hnil).2 hne
      · rwa [List.getLast?_append_of_ne_nil _ hne] at hlast
    obtain ⟨init, rfl⟩ := List.getLast?_eq_some_iff.mp hlast
    rcases hcase with ⟨more, -, rfl, -⟩ | ⟨inside, beyond, -, hahead, rfl, -⟩
    · exact absurd (hm.breaks hcross.found init more (by simp)).append hends
    · rcases List.eq_nil_or_concat' inside with rfl | ⟨inside, c, rfl⟩
      · rw [hahead, List.append_nil] at hends
        exact absurd (hm.ends hcross.found).append hends
      · have hlast := congrArg List.getLast? hahead
        obtain rfl : '\n' = c := by simpa [← List.append_assoc] using hlast
        exact absurd (hm.tokens hcross.found '\n' (by simp)) (by decide)

theorem sub_line_of_keys (hm : FindsKeys m) (hline : Keyless line) (hfront : EndsLine front)
    (hback : StartsLine back) (hends : ¬ EndsOnWord front) :
    ∃ front' back', m.sub mask (front ++ (line ++ back)) = front' ++ (line ++ back') ∧
      EndsLine front' ∧ ¬ EndsOnWord front' ∧ StartsLine back' := by
  obtain ⟨out, hvisits⟩ := visits_line hm hfront hends (line ++ back)
  obtain ⟨back', hsub⟩ := sub_line hm.toFindsWords hline hfront hback hends hvisits
  exact ⟨out, back', hsub⟩

/-- No secret before the line reaches into it, and no keyword stands before it, blanks and a
type digit aside. -/
def Untouched (w : Letters) (front line back : List Char) : Prop :=
  (∃ out, (secretAssignment w).Visits mask (front ++ (line ++ back)) ⟨front, out, line ++ back⟩) ∧
    ¬ EndsOnWord front

/-- The line is displayed as it is. -/
def KeptLine (w : Letters) (front line back : List Char) : Prop :=
  ∃ front' back', redactForDisplay w (front ++ (line ++ back)) = front' ++ (line ++ back') ∧
    EndsLine front' ∧ StartsLine back'

theorem keptLine (hline : Keyless line) (hfront : EndsLine front) (hback : StartsLine back)
    (huntouched : Untouched w front line back) : KeptLine w front line back := by
  obtain ⟨⟨out, hvisits⟩, hends⟩ := huntouched
  obtain ⟨back₁, hsub₁, hfront₁, hends₁, hback₁⟩ :=
    sub_line findsWords_secretAssignment hline hfront hback hends hvisits
  obtain ⟨front₂, back₂, hsub₂, hfront₂, hends₂, hback₂⟩ :=
    sub_line_of_keys (findsKeys_isakmpKey (w := w)) hline hfront₁ hback₁ hends₁
  obtain ⟨front₃, back₃, hsub₃, hfront₃, hends₃, hback₃⟩ :=
    sub_line_of_keys (findsKeys_serverKey (w := w)) hline hfront₂ hback₂ hends₂
  obtain ⟨front₄, back₄, hsub₄, hfront₄, -, hback₄⟩ :=
    sub_line_of_keys (findsKeys_preSharedKey (w := w)) hline hfront₃ hback₃ hends₃
  refine ⟨front₄, back₄, ?_, hfront₄, hback₄⟩
  simp only [redactForDisplay, hsub₁, hsub₂, hsub₃, hsub₄]

theorem isAlphanum_of_toLower {c : Char} (h : c.toLower.isLower = true) :
    c.isAlphanum = true := by
  unfold Char.toLower at h
  split_ifs at h with hupper
  · simp only [Char.isAlphanum, Char.isAlpha, Char.isUpper, Bool.or_eq_true, Bool.and_eq_true,
      decide_eq_true_eq]
    exact .inl (.inl hupper)
  · simp [Char.isAlphanum, Char.isAlpha, h]

theorem not_isAlphanum_of_space {c : Char} (h : isSpace c = true) : c.isAlphanum = false := by
  simp only [isSpace, Char.isAlphanum, Char.isAlpha, Char.isUpper, Char.isLower, Char.isDigit,
    Bool.or_eq_true, Bool.and_eq_true, decide_eq_true_eq, beq_iff_eq, UInt32.le_iff_toNat_le,
    ← UInt32.toNat_inj, Bool.or_eq_false_iff, Bool.and_eq_false_iff, decide_eq_false_iff_not,
    ge_iff_le] at *
  simp at *
  omega

/-- The letters and digits of ASCII, with the letters that fold into ASCII. -/
def asciiLetters : Letters where
  isalnum c := c.isAlphanum || c == '\u0130' || c == '\u0131' || c == '\u017f' || c == '\u212a'
  letter c h := by
    unfold fold at h
    split_ifs at h with hi hs hk
    · rcases hi with rfl | rfl <;> decide
    · subst hs
      decide
    · subst hk
      decide
    · simp [isAlphanum_of_toLower h]
  digit c h := by simp [Char.isAlphanum, h]
  blank c h := by
    have hother : c ≠ '\u0130' ∧ c ≠ '\u0131' ∧ c ≠ '\u017f' ∧ c ≠ '\u212a' := by
      refine ⟨?_, ?_, ?_, ?_⟩ <;> rintro rfl <;> exact absurd h (by decide)
    simp [not_isAlphanum_of_space h, hother]
  quote := by decide

/-- `password`, a type if there is one, and the secret, alone on the first line. -/
def passwordStatement (type : Option (String × List Char))
    (h : ∀ t ∈ type, t.1 ∈ typeWords ∧ Blanks t.2) : Statement asciiLetters where
  before := []
  word := "password"
  gap := [' ']
  type := type
  after := ['\n']
  starts := by simp
  word_mem := by decide
  gap_blank := blanks_space
  type_mem := h

theorem admits_letter {type : String × List Char} (h) {c : Char} (hc : isSpace c = false)
    (hmark : ¬ IsMark c) : (passwordStatement (some type) h).Admits [c] := by
  refine ⟨.inr ⟨by simp, by simpa using hc, ?_, ?_⟩, by simp [passwordStatement]⟩
  · rintro d hd
    obtain rfl : '\n' = d := by simpa [passwordStatement] using hd
    decide
  · rintro mark rest hkind heq
    obtain ⟨rfl, -⟩ := List.cons.inj heq
    exact absurd hkind hmark

example : redactForDisplay asciiLetters "password 7 a\npassword cipher a".toList =
    "password 7 <redacted>\npassword <redacted> a".toList := by decide

end ConfigBackup.TextRedaction
