import ConfigBackup.KeyPatterns

/-!
The statements of text configurations that hold a secret, and which of them the
redaction hides. A statement stands in a context: the text before it and after it.
-/

namespace ConfigBackup.SecretStatements

open KeyPatterns SearchPatterns SecretPatterns Text

/-- The keywords of the statements that vendors write secrets in. -/
def statementWords : List String :=
  ["password", "secret", "community", "key-string", "authentication-key", "encrypted-password",
    "pre-shared-secret"]

/-- What may stand between the keyword and the secret. -/
def typeWords : List String :=
  ["0", "1", "2", "3", "4", "5", "6", "7", "8", "9", "cipher", "irreversible-cipher", "simple",
    "hash"]

/-- A statement in its context, without the secret itself. -/
structure Statement (w : Letters) where
  before : List Char
  word : String
  gap : List Char
  type : Option (String × List Char)
  after : List Char
  starts : ∀ c ∈ before.getLast?, w.inName c = false
  word_mem : word ∈ statementWords
  gap_blank : Blanks gap
  type_mem : ∀ t ∈ type, t.1 ∈ typeWords ∧ Blanks t.2

variable {w : Letters}

namespace Statement

variable (s : Statement w)

/-- The type and the blanks after it. -/
def typePart : Option (String × List Char) → List Char
  | none => []
  | some (word, gap) => word.toList ++ gap

/-- What stands before the secret. -/
def opening : List Char := s.word.toList ++ (s.gap ++ typePart s.type)

def text (value : List Char) : List Char := s.before ++ (s.opening ++ (value ++ s.after))

/-- A value of the statement: a quoted string, or a token that opens none and that is not
itself the type of a value after it. -/
def Admits (value : List Char) : Prop :=
  IsValue value s.after ∧ (s.type = none → ¬ StartsTyped (value ++ s.after))

/-- The keyword is one of the expression, and the type is absent or one of its digits. -/
def Recognised : Prop :=
  s.word ∈ secretWords ∧ ∀ t ∈ s.type, ∃ d ∈ secretDigits, t.1.toList = [d]

/-- No secret before the statement reaches into it: the substitution comes to the keyword. -/
def Free : Prop :=
  ∀ value, s.Admits value → ∃ out, (secretAssignment w).Visits mask (s.text value)
    ⟨s.before, out, s.opening ++ (value ++ s.after)⟩

/-- Every two values are displayed alike. -/
def Hidden : Prop :=
  ∀ value value', s.Admits value → s.Admits value' →
    redactForDisplay w (s.text value) = redactForDisplay w (s.text value')

end Statement

/-- Texts that differ in the values of such statements only. -/
def EqualExcept (statements : Set (Statement w)) : List Char → List Char → Prop :=
  Relation.ReflTransGen fun text text' => ∃ s ∈ statements, ∃ value value',
    s.Admits value ∧ s.Admits value' ∧ text = s.text value ∧ text' = s.text value'

/-! A recognised statement is hidden. -/

variable {s : Statement w} {value value' : List Char}

theorem secretWord_of_mem {word : String} (h : word ∈ secretWords) : IsSecretWord word.toList := by
  have hfold : ∀ word ∈ secretWords, word.toList.map fold = word.toList := by decide
  rw [IsSecretWord, hfold word h]
  exact List.mem_map_of_mem h

/-- At the keyword, the expression reads the statement and no more. -/
theorem match?_opening (hrecognised : s.Recognised) (hvalue : s.Admits value) :
    (secretAssignment w).match? s.before.getLast? (s.opening ++ (value ++ s.after)) =
      some (s.opening, value, s.after) := by
  obtain ⟨hword, htype⟩ := hrecognised
  have hword := secretWord_of_mem hword
  refine match?_of_reads ?_
  unfold Statement.opening
  cases hkind : s.type with
  | none =>
    simpa [Statement.typePart] using
      Reads.plain s.starts hword s.gap_blank hvalue.1 (hvalue.2 hkind)
  | some kind =>
    obtain ⟨type, gap'⟩ := kind
    obtain ⟨d, hd, htype⟩ := htype _ hkind
    simpa [Statement.typePart, htype] using
      Reads.typed s.starts hword s.gap_blank hd (s.type_mem _ hkind).2 hvalue.1

theorem getLast?_quoted (front inner : List Char) (mark : Char) :
    (front ++ mark :: (inner ++ [mark])).getLast? = some mark := by
  rw [← List.cons_append, ← List.append_assoc, List.getLast?_concat]

/-- What follows a value is redacted alike after every value. -/
theorem subFrom_after (hvalue : IsValue value s.after) (hvalue' : IsValue value' s.after)
    (front : List Char) :
    (secretAssignment w).subFrom mask (front ++ value).getLast? 0 s.after =
      (secretAssignment w).subFrom mask (front ++ value').getLast? 0 s.after := by
  cases hafter : s.after with
  | nil => simp [Masking.subFrom]
  | cons c after =>
    have hbare : ∀ {value}, BareToken value s.after → isSpace c = true := by
      rintro _ ⟨-, -, hrest, -⟩
      exact hrest c (by simp [hafter])
    have hblank : isSpace c = true →
        ∀ before, (secretAssignment w).subFrom mask before 0 (c :: after) =
          c :: (secretAssignment w).subFrom mask (some c) 0 after := fun hc before =>
      Masking.subFrom_keep (match?_eq_none_of_head (inName_of_space hc))
    rcases hvalue with ⟨mark, inner, hmark, -, rfl⟩ | hvalue
    · rcases hvalue' with ⟨mark', inner', hmark', -, rfl⟩ | hvalue'
      · have hsame : (secretAssignment w).match? (some mark) (c :: after) =
            (secretAssignment w).match? (some mark') (c :: after) :=
          match?_congr (by simp [inName_of_mark hmark]) (by simp [inName_of_mark hmark']) _
        rw [getLast?_quoted, getLast?_quoted, Masking.subFrom, Masking.subFrom, hsame]
      · rw [hblank (hbare hvalue'), hblank (hbare hvalue')]
    · rw [hblank (hbare hvalue), hblank (hbare hvalue)]

/-- The first letter of a keyword. -/
theorem exists_opening (s : Statement w) :
    ∃ a more, s.opening = a :: more ∧ isSpace a = false := by
  have hwords : ∀ word ∈ statementWords, word.toList.head?.any (!isSpace ·) = true := by decide
  obtain ⟨a, ha, hspace⟩ : ∃ a, s.word.toList.head? = some a ∧ isSpace a = false := by
    simpa [Option.any_eq_true] using hwords _ s.word_mem
  obtain ⟨more, hmore⟩ := List.head?_eq_some_iff.mp ha
  exact ⟨a, more ++ (s.gap ++ Statement.typePart s.type), by rw [Statement.opening, hmore]; rfl,
    hspace⟩

/-- A value that holds marks of both kinds. -/
def probe (n : ℕ) : List Char := '"' :: ' ' :: '\'' :: ' ' :: (List.replicate n 'x' ++ [' ', '"'])

theorem admits_probe (s : Statement w) (n : ℕ) : s.Admits (probe n) := by
  refine ⟨.inl ⟨'"', ' ' :: '\'' :: ' ' :: (List.replicate n 'x' ++ [' ']), .inl rfl, ?_, ?_⟩, ?_⟩
  · simp [List.mem_replicate]
  · simp [probe]
  · rintro - ⟨d, gap, c, rest, hd, -, -, heq⟩
    obtain ⟨rfl, -⟩ := List.cons.inj heq
    exact absurd hd (by decide)

theorem mem_probe {n : ℕ} {mark : Char} (h : IsMark mark) : mark ∈ probe n := by
  rcases h with rfl | rfl <;> simp [probe]

/-- The way of the substitution to a statement is the same for every value. -/
theorem visits_opening {out : List Char} {n : ℕ}
    (h : (secretAssignment w).Visits mask (s.text (probe n))
      ⟨s.before, out, s.opening ++ (probe n ++ s.after)⟩) (value : List Char) :
    (secretAssignment w).Visits mask (s.text value)
      ⟨s.before, out, s.opening ++ (value ++ s.after)⟩ := by
  obtain ⟨a, more, hopening, ha⟩ := exists_opening s
  rw [Statement.text, hopening] at h ⊢
  refine visits_local s.starts ha (fun mark hmark => ?_) h
  simp [mem_probe hmark]

/-- What the first expression makes of a statement that it hides. -/
theorem sub_text (hrecognised : s.Recognised) {out : List Char} (hvalue : s.Admits value)
    (hvisits : (secretAssignment w).Visits mask (s.text value)
      ⟨s.before, out, s.opening ++ (value ++ s.after)⟩) :
    (secretAssignment w).sub mask (s.text value) = out ++ (s.opening ++ mask) ++
      (secretAssignment w).subFrom mask (s.before ++ s.opening ++ value).getLast? 0 s.after := by
  have hstep := hvisits.tail (.hide (match?_opening hrecognised hvalue))
  rw [Masking.sub_of_visits hstep, List.append_assoc s.before]

theorem hidden_of_recognised (hrecognised : s.Recognised) (hfree : s.Free) : s.Hidden := by
  intro value value' hvalue hvalue'
  obtain ⟨out, hvisits⟩ := hfree _ (admits_probe s 0)
  have hsame : (secretAssignment w).sub mask (s.text value) =
      (secretAssignment w).sub mask (s.text value') := by
    rw [sub_text hrecognised hvalue (visits_opening hvisits value),
      sub_text hrecognised hvalue' (visits_opening hvisits value'),
      subFrom_after hvalue.1 hvalue'.1]
  simp only [redactForDisplay, hsame]

/-! A statement that is not recognised, or not free, is not hidden. -/

theorem inName_of_statementWord {word : String} (h : word ∈ statementWords) :
    ∀ c ∈ word.toList, w.inName c = true := by
  intro c hc
  have hletters : ∀ word ∈ statementWords,
      word.toList.all (fun c => (fold c).isLower || fold c == '-') = true := by decide
  exact inName_of_fold (by simpa using List.all_eq_true.mp (hletters word h) c hc)

theorem inName_of_typeWord {word : String} (h : word ∈ typeWords) :
    ∀ c ∈ word.toList, w.inName c = true := by
  intro c hc
  have hletters : ∀ word ∈ typeWords, word.toList.all
      (fun c => (fold c).isLower || fold c == '-' || c.isDigit) = true := by decide
  have hletter : ((fold c).isLower = true ∨ fold c = '-') ∨ c.isDigit = true := by
    simpa using List.all_eq_true.mp (hletters word h) c hc
  rcases hletter with h | h
  · exact inName_of_fold h
  · exact inName_of_digit h

/-- Equal texts that end with blanks after names end with the same name and the same blanks. -/
theorem split_name {front front' word word' gap gap' : List Char}
    (h : front ++ (word ++ gap) = front' ++ (word' ++ gap')) (hgap : Blanks gap)
    (hgap' : Blanks gap') (hword : ∀ c ∈ word, w.inName c = true) (hne : word ≠ [])
    (hword' : ∀ c ∈ word', w.inName c = true) (hne' : word' ≠ [])
    (hfront : ∀ c ∈ front.getLast?, w.inName c = false)
    (hfront' : ∀ c ∈ front'.getLast?, w.inName c = false) :
    front = front' ∧ word = word' ∧ gap = gap' := by
  have hlast : ∀ {front word : List Char}, (∀ c ∈ word, w.inName c = true) → word ≠ [] →
      ∀ c ∈ (front ++ word).getLast?, ¬ isSpace c = true := by
    intro front word hword hne c hc
    rw [List.getLast?_append_of_ne_nil _ hne] at hc
    simp [isSpace_of_inName (hword c (List.mem_of_getLast? hc))]
  obtain ⟨hnames, rfl⟩ := split_unique (p := fun c => isSpace c = true)
    (by simpa using h : (front ++ word) ++ gap = (front' ++ word') ++ gap') hgap.2 hgap'.2
    (hlast hword hne) (hlast hword' hne')
  obtain ⟨rfl, rfl⟩ := split_unique (p := fun c => w.inName c = true) hnames hword hword'
    (fun c hc => by simp [hfront c hc]) (fun c hc => by simp [hfront' c hc])
  exact ⟨rfl, rfl, rfl⟩

theorem inName_of_gap {front gap : List Char} (hgap : Blanks gap) :
    ∀ c ∈ (front ++ gap).getLast?, w.inName c = false := by
  intro c hc
  rw [List.getLast?_append_of_ne_nil _ hgap.1] at hc
  exact inName_of_space (hgap.2 c (List.mem_of_getLast? hc))

/-- A lead that ends where the opening of a statement ends is the opening of the statement. -/
theorem recognised_of_lead {done lead value rest : List Char}
    (hreads : Reads w done.getLast? lead value rest) (h : done ++ lead = s.before ++ s.opening) :
    done = s.before ∧ s.Recognised := by
  have hstatement : ∀ c ∈ s.word.toList, w.inName c = true := inName_of_statementWord s.word_mem
  have hstatementne : s.word.toList ≠ [] := by
    have : ∀ word ∈ statementWords, word.toList ≠ [] := by decide
    exact this _ s.word_mem
  have hsecret : ∀ {word : List Char}, IsSecretWord word → word = s.word.toList →
      s.word ∈ secretWords := by
    rintro _ hword rfl
    have : ∀ word ∈ statementWords, word.toList.map fold ∈ secretWords.map String.toList →
        word ∈ secretWords := by decide
    exact this _ s.word_mem hword
  unfold Statement.opening at h
  cases hkind : s.type with
  | none =>
    simp only [hkind, Statement.typePart, List.append_nil] at h
    cases hreads with
    | @plain word gap _ _ starts isWord isGap _ _ =>
      obtain ⟨hdone, hword, -⟩ := split_name h isGap s.gap_blank (inName_of_secretWord isWord)
        (secretWord_ne_nil isWord) hstatement hstatementne starts s.starts
      exact ⟨hdone, hsecret isWord hword, by simp [hkind]⟩
    | @typed word gap gap' _ _ d starts isWord isGap isDigit isGap' _ =>
      have hdigits : (done ++ word ++ gap) ++ ([d] ++ gap') =
          s.before ++ (s.word.toList ++ s.gap) := by
        simpa using h
      obtain ⟨-, hword, -⟩ := split_name hdigits isGap' s.gap_blank
        (by simp [inName_of_digit (mem_secretDigits isDigit).1]) (by simp) hstatement hstatementne
        (inName_of_gap isGap) s.starts
      have hlong : ∀ word ∈ statementWords, word.toList.length ≠ 1 := by decide
      exact absurd (congrArg List.length hword).symm (hlong _ s.word_mem)
  | some kind =>
    obtain ⟨type, gap'⟩ := kind
    obtain ⟨htype, hgap'⟩ := s.type_mem _ hkind
    have htypene : type.toList ≠ [] := by
      have : ∀ word ∈ typeWords, word.toList ≠ [] := by decide
      exact this _ htype
    simp only [hkind, Statement.typePart] at h
    have hopening : s.before ++ (s.word.toList ++ (s.gap ++ (type.toList ++ gap'))) =
        (s.before ++ s.word.toList ++ s.gap) ++ (type.toList ++ gap') := by simp
    rw [hopening] at h
    cases hreads with
    | @plain word gap _ _ starts isWord isGap _ _ =>
      obtain ⟨-, rfl, -⟩ := split_name h isGap hgap' (inName_of_secretWord isWord)
        (secretWord_ne_nil isWord) (inName_of_typeWord htype) htypene starts
        (inName_of_gap s.gap_blank)
      have : ∀ word ∈ typeWords, ¬ word.toList.map fold ∈ secretWords.map String.toList := by decide
      exact absurd isWord (this _ htype)
    | @typed word gap gap'' _ _ d starts isWord isGap isDigit isGap' _ =>
      have hdigits : (done ++ word ++ gap) ++ ([d] ++ gap'') =
          (s.before ++ s.word.toList ++ s.gap) ++ (type.toList ++ gap') := by
        simpa using h
      obtain ⟨hfront, hword, -⟩ := split_name (w := w) hdigits isGap' hgap'
        (by simp [inName_of_digit (mem_secretDigits isDigit).1]) (by simp)
        (inName_of_typeWord htype) htypene (inName_of_gap isGap) (inName_of_gap s.gap_blank)
      obtain ⟨hdone, hstatementWord, -⟩ := split_name (by simpa using hfront) isGap s.gap_blank
        (inName_of_secretWord isWord) (secretWord_ne_nil isWord) hstatement hstatementne starts
        s.starts
      refine ⟨hdone, hsecret isWord hstatementWord, ?_⟩
      rintro _ hmem
      obtain rfl := Option.some.inj (hkind.symm.trans hmem)
      exact ⟨d, isDigit, hword.symm⟩

/-- A match that reads into the probe as a value begins with the statement's keyword. -/
theorem recognised_of_crosses {n : ℕ} {p : Place Char} {lead inside beyond rest : List Char}
    (h : (secretAssignment w).Crosses mask (s.before ++ s.opening ++ ['"', ' '] ++ ['\'', ' '])
      (List.replicate n 'x' ++ ' ' :: '"' :: s.after) p lead (inside ++ beyond) rest)
    (hbeyond : beyond ≠ [])
    (hfront : s.before ++ s.opening ++ ['"', ' '] ++ ['\'', ' '] = p.done ++ (lead ++ inside)) :
    p.done ++ lead = s.before ++ s.opening := by
  have hreads := reads_of_match? h.found
  have hends := findsWords_secretAssignment.ends h.found
  have hnoLead : ∀ (front : List Char) (k : Char), IsMark k →
      p.done ++ lead ≠ front ++ [k, ' '] := by
    intro front k hmark heq
    have hend : isSpace k = false ∧ ¬ LeadEnd k := by
      unfold LeadEnd
      rcases hmark with rfl | rfl <;> decide
    exact not_endsOnWord w hend.1 hend.2 (heq ▸ hends.append)
  have hvalue : IsValue (inside ++ beyond) rest := by
    generalize inside ++ beyond = value at hreads
    cases hreads with
    | plain _ _ _ isValue => exact isValue
    | typed _ _ _ _ _ isValue => exact isValue
  cases inside with
  | nil =>
    rw [List.append_nil] at hfront
    exact absurd hfront.symm (hnoLead _ '\'' (.inr rfl))
  | cons c inside =>
    rcases hvalue with ⟨mark, inner, hmark, hinner, hquoted⟩ | ⟨-, hbare, -, -⟩
    · -- the part of the string before its end mark holds no other mark of its kind
      obtain rfl : c = mark := (List.cons.inj hquoted).1
      have hinside : inside ++ beyond = inner ++ [c] := (List.cons.inj hquoted).2
      have hmem : c ∉ inside := by
        rw [← List.dropLast_concat_getLast hbeyond, ← List.append_assoc] at hinside
        obtain ⟨rfl, -⟩ := List.append_inj' hinside rfl
        exact fun hmem => hinner (List.mem_append_left _ hmem)
      rcases hmark with rfl | rfl
      · have heq : p.done ++ lead ++ '"' :: inside =
            s.before ++ s.opening ++ '"' :: [' ', '\'', ' '] := by
          simpa using hfront.symm
        exact (split_last_unique heq hmem (by decide)).1
      · have heq : p.done ++ lead ++ '\'' :: inside =
            s.before ++ s.opening ++ ['"', ' '] ++ '\'' :: [' '] := by
          simpa using hfront.symm
        exact absurd (split_last_unique heq hmem (by decide)).1 (hnoLead _ '"' (.inl rfl))
    · -- a token does not hold the blank before the probe's token
      have hblank : ' ' ∈ c :: inside := by
        have hlast := congrArg List.getLast? hfront
        rw [List.getLast?_append_of_ne_nil _ (by simp), List.getLast?_append_of_ne_nil _ (by simp),
          List.getLast?_append_of_ne_nil _ (by simp)] at hlast
        exact List.mem_of_getLast? hlast.symm
      exact absurd (hbare ' ' (List.mem_append_left _ hblank)) (by decide)

/-- Where the probe is hidden, the statement is recognised and the substitution comes to it. -/
theorem free_of_not_shows {n : ℕ}
    (h : ¬ Shows n ((secretAssignment w).sub mask (s.text (probe n)))) :
    s.Recognised ∧ ∃ out, (secretAssignment w).Visits mask (s.text (probe n))
      ⟨s.before, out, s.opening ++ (probe n ++ s.after)⟩ := by
  by_contra hnot
  refine h ?_
  have htext : s.text (probe n) = s.before ++ s.opening ++ ['"', ' '] ++ ['\'', ' '] ++
      (List.replicate n 'x' ++ ' ' :: '"' :: s.after) := by
    simp [Statement.text, probe]
  rw [htext]
  refine shows_sub findsWords_secretAssignment (by decide) (by unfold LeadEnd; decide) ?_
  intro p lead inside beyond rest hbeyond hcross hfront
  have hlead := recognised_of_crosses hcross hbeyond hfront
  obtain ⟨hdone, hrecognised⟩ := recognised_of_lead (reads_of_match? hcross.found) hlead
  obtain ⟨done, out, left⟩ := p
  obtain rfl : done = s.before := hdone
  refine hnot ⟨hrecognised, out, ?_⟩
  have hvisits := hcross.visits
  have hleft := Masking.append_of_visits hvisits
  rw [← htext] at hvisits hleft
  obtain rfl : left = s.opening ++ (probe n ++ s.after) := List.append_cancel_left hleft
  exact hvisits

theorem free_of_visits {n : ℕ} {out : List Char}
    (h : (secretAssignment w).Visits mask (s.text (probe n))
      ⟨s.before, out, s.opening ++ (probe n ++ s.after)⟩) : s.Free :=
  fun value _ => ⟨out, visits_opening h value⟩

/-- A statement hides its values exactly where it is recognised and nothing before it reaches
into it: elsewhere the display of ever longer values grows. -/
theorem hidden_iff (s : Statement w) : s.Hidden ↔ s.Recognised ∧ s.Free := by
  constructor
  · intro hhidden
    by_contra hnot
    have hshows : ∀ n, Shows n ((secretAssignment w).sub mask (s.text (probe n))) := by
      intro n
      by_contra hshow
      obtain ⟨hrecognised, out, hvisits⟩ := free_of_not_shows hshow
      exact hnot ⟨hrecognised, free_of_visits hvisits⟩
    have hsame := hhidden _ _ (admits_probe s 0)
      (admits_probe s ((redactForDisplay w (s.text (probe 0))).length + 1))
    have hlong := le_length_redactForDisplay w (hshows
      ((redactForDisplay w (s.text (probe 0))).length + 1))
    rw [← hsame] at hlong
    omega
  · rintro ⟨hrecognised, hfree⟩
    exact hidden_of_recognised hrecognised hfree

/-- Two texts that differ in the values of the statements of a set are displayed alike, whatever
the values, exactly where every statement of the set is recognised and free. -/
theorem displayedAlike_iff (statements : Set (Statement w)) :
    (∀ text text', EqualExcept statements text text' →
      redactForDisplay w text = redactForDisplay w text') ↔
      ∀ s ∈ statements, s.Recognised ∧ s.Free := by
  constructor
  · intro h s hs
    refine (hidden_iff s).mp fun value value' hvalue hvalue' => h _ _ ?_
    exact .single ⟨s, hs, value, value', hvalue, hvalue', rfl, rfl⟩
  · intro h text text' hequal
    induction hequal with
    | refl => rfl
    | tail _ hstep ih =>
      obtain ⟨s, hs, value, value', hvalue, hvalue', rfl, rfl⟩ := hstep
      exact ih.trans ((hidden_iff s).mpr (h s hs) value value' hvalue hvalue')

end ConfigBackup.SecretStatements
