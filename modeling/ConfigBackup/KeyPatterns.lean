import ConfigBackup.SecretPatterns

/-!
What the four expressions of the redaction have in common: a match begins with one of
their keywords, its lead ends with a keyword and blanks, perhaps with a type digit
between them, and a hidden value ends where no blank is.
-/

namespace ConfigBackup.KeyPatterns

open SearchPatterns SecretPatterns Text

/-- The words that the expressions look for. -/
def patternWords : List String :=
  secretWords ++ ["crypto", "isakmp", "key", "tacacs-server", "radius-server", "pre-shared-key"]

def IsPatternWord (word : List Char) : Prop := word.map fold ∈ patternWords.map String.toList

/-- The text ends with a keyword and blanks, perhaps with a type digit between them. -/
def EndsOnWord (text : List Char) : Prop :=
  ∃ front word tail, text = front ++ (word ++ tail) ∧ IsPatternWord word ∧
    (Blanks tail ∨ ∃ gap d gap', tail = gap ++ d :: gap' ∧ Blanks gap ∧ d ∈ secretDigits ∧
      Blanks gap')

/-- What is true of all matches of an expression of the redaction. -/
structure FindsWords (m : Masking Char) : Prop where
  begins : ∀ {before text lead value rest}, m.match? before text = some (lead, value, rest) →
    ∃ word more, IsPatternWord word ∧ lead = word ++ more
  ends : ∀ {before text lead value rest}, m.match? before text = some (lead, value, rest) →
    EndsOnWord lead
  closes : ∀ {before text lead value rest}, m.match? before text = some (lead, value, rest) →
    ∃ front c, value = front ++ [c] ∧ isSpace c = false

/-- The expressions for keys hide tokens, and a line end in a lead follows a keyword. -/
structure FindsKeys (m : Masking Char) : Prop extends FindsWords m where
  tokens : ∀ {before text lead value rest}, m.match? before text = some (lead, value, rest) →
    ∀ c ∈ value, isSpace c = false
  breaks : ∀ {before text lead value rest}, m.match? before text = some (lead, value, rest) →
    ∀ u v, lead = u ++ '\n' :: v → EndsOnWord (u ++ ['\n'])

variable {w : Letters} {before : Option Char} {text front : List Char}

theorem patternWord_of_secretWord {word : List Char} (h : IsSecretWord word) :
    IsPatternWord word := by
  unfold IsPatternWord patternWords
  rw [List.map_append]
  exact List.mem_append_left _ h

theorem EndsOnWord.append (h : EndsOnWord text) : EndsOnWord (front ++ text) := by
  obtain ⟨front', word, tail, rfl, hword, htail⟩ := h
  exact ⟨front ++ front', word, tail, by simp, hword, htail⟩

theorem endsOnWord_word {word gap : List Char} (hword : IsPatternWord word) (hgap : Blanks gap) :
    EndsOnWord (word ++ gap) := ⟨[], word, gap, rfl, hword, .inl hgap⟩

theorem endsOnWord_typed {word gap gap' : List Char} {d : Char} (hword : IsPatternWord word)
    (hgap : Blanks gap) (hd : d ∈ secretDigits) (hgap' : Blanks gap') :
    EndsOnWord (word ++ (gap ++ d :: gap')) :=
  ⟨[], word, _, rfl, hword, .inr ⟨gap, d, gap', rfl, hgap, hd, hgap'⟩⟩

/-- The expression for secret assignments. -/
theorem findsWords_secretAssignment : FindsWords (secretAssignment w) where
  begins h := by
    obtain ⟨word, more, hword, rfl⟩ := (reads_of_match? h).exists_word
    exact ⟨word, more, patternWord_of_secretWord hword, rfl⟩
  ends h := by
    cases reads_of_match? h with
    | plain _ isWord isGap => exact endsOnWord_word (patternWord_of_secretWord isWord) isGap
    | typed _ isWord isGap isDigit isGap' =>
      exact endsOnWord_typed (patternWord_of_secretWord isWord) isGap isDigit isGap'
  closes h := by
    have hvalue : ∀ {value rest}, IsValue value rest →
        ∃ front c, value = front ++ [c] ∧ isSpace c = false := by
      rintro value rest (⟨mark, inner, hmark, -, rfl⟩ | ⟨hne, hall, -, -⟩)
      · refine ⟨mark :: inner, mark, rfl, ?_⟩
        rcases hmark with rfl | rfl <;> decide
      · refine ⟨value.dropLast, value.getLast hne, (List.dropLast_concat_getLast hne).symm, ?_⟩
        exact hall _ (List.getLast_mem hne)
    cases reads_of_match? h with
    | plain _ _ _ isValue => exact hvalue isValue
    | typed _ _ _ _ _ isValue => exact hvalue isValue

/-! The leads of the expressions for keys. -/

/-- Where a line ends in a lead, a keyword and blanks stand before its end. -/
def Breaks (lead : List Char) : Prop :=
  ∀ u v, lead = u ++ '\n' :: v → EndsOnWord (u ++ ['\n'])

theorem newline_of_gap {gap u v : List Char} (hgap : Blanks gap) (h : gap = u ++ '\n' :: v) :
    Blanks (u ++ ['\n']) := by
  refine ⟨by simp, fun c hc => hgap.2 c ?_⟩
  rw [h]
  simp only [List.mem_append, List.mem_cons, List.not_mem_nil, or_false] at hc ⊢
  tauto

theorem newline_not_mem_word {word : List Char} (h : IsPatternWord word) : '\n' ∉ word := by
  intro hmem
  have hletters : ∀ letters ∈ patternWords.map String.toList, fold '\n' ∉ letters := by decide
  exact hletters _ h (List.mem_map_of_mem hmem)

theorem breaks_nil : Breaks [] := by
  intro u v h
  simp at h

theorem Breaks.skip {lead : List Char} (hfront : '\n' ∉ front) (h : Breaks lead) :
    Breaks (front ++ lead) := by
  intro u v heq
  rcases List.append_eq_append_iff.mp heq with ⟨more, rfl, hmore⟩ | ⟨more, rfl, hmore⟩
  · rw [List.append_assoc]
    exact (h more v hmore).append
  · cases more with
    | nil => simpa using (h [] v hmore.symm).append
    | cons c more =>
      obtain ⟨rfl, -⟩ := List.cons.inj hmore
      simp at hfront

/-- A keyword, blanks, and more of a lead. -/
theorem Breaks.word {word gap lead : List Char} (hword : IsPatternWord word) (hgap : Blanks gap)
    (h : Breaks lead) : Breaks (word ++ (gap ++ lead)) := by
  intro u v heq
  rw [← List.append_assoc] at heq
  rcases List.append_eq_append_iff.mp heq with ⟨more, rfl, hmore⟩ | ⟨more, hu, hmore⟩
  · rw [List.append_assoc]
    exact (h more v hmore).append
  · cases more with
    | nil =>
      rw [List.append_nil] at hu
      rw [← hu]
      exact (h [] v hmore.symm).append
    | cons c more =>
      obtain ⟨rfl, -⟩ := List.cons.inj hmore
      rcases List.append_eq_append_iff.mp hu with ⟨inside, rfl, hinside⟩ | ⟨inside, hword', hinside⟩
      · rw [List.append_assoc]
        exact endsOnWord_word hword (newline_of_gap hgap hinside)
      · cases inside with
        | nil =>
          rw [List.append_nil] at hword'
          rw [← hword']
          exact endsOnWord_word hword (newline_of_gap hgap (u := []) hinside.symm)
        | cons c' inside =>
          obtain ⟨rfl, -⟩ := List.cons.inj hinside
          exact absurd (by simp [hword']) (newline_not_mem_word hword)

/-- A keyword and a type digit, with blanks after each. -/
theorem breaks_typed {word gap gap' : List Char} {d : Char} (hword : IsPatternWord word)
    (hgap : Blanks gap) (hd : d ∈ secretDigits) (hgap' : Blanks gap') :
    Breaks (word ++ (gap ++ d :: gap')) := by
  have hdigit : Breaks [d] := by
    intro u v heq
    cases u with
    | nil =>
      obtain ⟨rfl, -⟩ := List.cons.inj heq
      exact absurd hd (by decide)
    | cons c u => simp at heq
  intro u v heq
  have hsplit : word ++ (gap ++ [d]) ++ gap' = u ++ '\n' :: v := by simpa using heq
  rcases List.append_eq_append_iff.mp hsplit with ⟨more, rfl, hmore⟩ | ⟨more, hu, hmore⟩
  · simpa using endsOnWord_typed hword hgap hd (newline_of_gap hgap' hmore)
  · cases more with
    | nil =>
      rw [List.append_nil] at hu
      rw [← hu]
      simpa using endsOnWord_typed hword hgap hd (newline_of_gap hgap' (u := []) hmore.symm)
    | cons c more =>
      obtain ⟨rfl, -⟩ := List.cons.inj hmore
      exact Breaks.word hword hgap hdigit u more hu

/-- What the lead of every match of an expression for keys is like. -/
structure GoodLead (lead : List Char) : Prop where
  begins : ∃ word more, IsPatternWord word ∧ lead = word ++ more
  ends : EndsOnWord lead
  breaks : Breaks lead

variable {way : List Char × List Char}

theorem patternWord_of_keyword {word : String} (hword : word ∈ patternWords)
    (h : way ∈ (keyword word).ways before text) : IsPatternWord way.1 := by
  rw [IsPatternWord, (Pattern.mem_ways_word.mp h).2]
  exact List.mem_map_of_mem hword

theorem blanks_of_mem (h : way ∈ blanks.ways before text) : Blanks way.1 :=
  (Pattern.mem_ways_some'.mp h).2

theorem GoodLead.last {word gap : List Char} (hword : IsPatternWord word) (hgap : Blanks gap) :
    GoodLead (word ++ gap) where
  begins := ⟨word, gap, hword, rfl⟩
  ends := endsOnWord_word hword hgap
  breaks := by simpa using Breaks.word hword hgap breaks_nil

theorem GoodLead.typed {word gap gap' : List Char} {d : Char} (hword : IsPatternWord word)
    (hgap : Blanks gap) (hd : d ∈ secretDigits) (hgap' : Blanks gap') :
    GoodLead (word ++ (gap ++ d :: gap')) where
  begins := ⟨word, gap ++ d :: gap', hword, rfl⟩
  ends := endsOnWord_typed hword hgap hd hgap'
  breaks := breaks_typed hword hgap hd hgap'

theorem GoodLead.word {word gap lead : List Char} (hword : IsPatternWord word) (hgap : Blanks gap)
    (h : GoodLead lead) : GoodLead (word ++ (gap ++ lead)) where
  begins := ⟨word, gap ++ lead, hword, rfl⟩
  ends := h.ends.append.append
  breaks := h.breaks.word hword hgap

theorem goodLead_isakmpKey (h : way ∈ (isakmpKey w).lead.ways before text) : GoodLead way.1 := by
  obtain ⟨start, hstart, _, h₁, rfl⟩ := Pattern.mem_ways_seq.mp h
  obtain ⟨crypto, hcrypto, _, h₂, rfl⟩ := Pattern.mem_ways_seq.mp h₁
  obtain ⟨gap, hgap, _, h₃, rfl⟩ := Pattern.mem_ways_seq.mp h₂
  obtain ⟨isakmp, hisakmp, _, h₄, rfl⟩ := Pattern.mem_ways_seq.mp h₃
  obtain ⟨gap', hgap', _, h₅, rfl⟩ := Pattern.mem_ways_seq.mp h₄
  obtain ⟨key, hkey, gap'', hgap'', rfl⟩ := Pattern.mem_ways_seq.mp h₅
  obtain ⟨-, rfl⟩ := Pattern.mem_ways_between.mp hstart
  have hcrypto : IsPatternWord crypto.1 := patternWord_of_keyword (by decide) hcrypto
  have hisakmp : IsPatternWord isakmp.1 := patternWord_of_keyword (by decide) hisakmp
  have hkey : IsPatternWord key.1 := patternWord_of_keyword (by decide) hkey
  have hlast : GoodLead (key.1 ++ gap''.1) := .last hkey (blanks_of_mem hgap'')
  have hgood := GoodLead.word hcrypto (blanks_of_mem hgap)
    (.word hisakmp (blanks_of_mem hgap') hlast)
  simpa only [List.nil_append] using hgood

theorem goodLead_serverKey (h : way ∈ (serverKey w).lead.ways before text) : GoodLead way.1 := by
  obtain ⟨start, hstart, _, h₁, rfl⟩ := Pattern.mem_ways_seq.mp h
  obtain ⟨server, hserver, _, h₂, rfl⟩ := Pattern.mem_ways_seq.mp h₁
  obtain ⟨gap, hgap, _, h₃, rfl⟩ := Pattern.mem_ways_seq.mp h₂
  obtain ⟨key, hkey, _, h₄, rfl⟩ := Pattern.mem_ways_seq.mp h₃
  obtain ⟨gap', hgap', typed, htyped, rfl⟩ := Pattern.mem_ways_seq.mp h₄
  obtain ⟨-, rfl⟩ := Pattern.mem_ways_between.mp hstart
  have hserver : IsPatternWord server.1 := by
    obtain ⟨_, hmem, hway⟩ := Pattern.mem_ways_anyOf.mp hserver
    obtain ⟨word, hword, rfl⟩ := List.mem_map.mp hmem
    have hwords : ∀ word ∈ ["tacacs-server", "radius-server"], word ∈ patternWords := by decide
    exact patternWord_of_keyword (hwords word hword) hway
  have hkey : IsPatternWord key.1 := patternWord_of_keyword (by decide) hkey
  have hgood : GoodLead (key.1 ++ (gap'.1 ++ typed.1)) → GoodLead
      (server.1 ++ (gap.1 ++ (key.1 ++ (gap'.1 ++ typed.1)))) :=
    .word hserver (blanks_of_mem hgap)
  simp only [List.nil_append]
  refine hgood ?_
  rcases Pattern.mem_ways_maybe.mp htyped with htyped | rfl
  · obtain ⟨digit, hdigit, gap'', hgap'', rfl⟩ := Pattern.mem_ways_seq.mp htyped
    obtain ⟨d, hd, hread, -⟩ := Pattern.mem_ways_one.mp hdigit
    have hdigits : ['0', '6', '7'].all (secretDigits.contains ·) = true := by decide
    have hsecret : d ∈ secretDigits := by
      simpa using List.all_eq_true.mp hdigits d (by simpa using hd)
    simp only [hread]
    exact .typed hkey (blanks_of_mem hgap') hsecret (blanks_of_mem hgap'')
  · simpa using GoodLead.last hkey (blanks_of_mem hgap')

theorem goodLead_preSharedKey (h : way ∈ (preSharedKey w).lead.ways before text) :
    GoodLead way.1 := by
  obtain ⟨start, hstart, _, h₁, rfl⟩ := Pattern.mem_ways_seq.mp h
  obtain ⟨shared, hshared, _, h₂, rfl⟩ := Pattern.mem_ways_seq.mp h₁
  obtain ⟨start', hstart', _, h₃, rfl⟩ := Pattern.mem_ways_seq.mp h₂
  obtain ⟨line, hline, _, h₄, rfl⟩ := Pattern.mem_ways_seq.mp h₃
  obtain ⟨start'', hstart'', _, h₅, rfl⟩ := Pattern.mem_ways_seq.mp h₄
  obtain ⟨key, hkey, gap, hgap, rfl⟩ := Pattern.mem_ways_seq.mp h₅
  obtain ⟨-, rfl⟩ := Pattern.mem_ways_between.mp hstart
  obtain ⟨-, rfl⟩ := Pattern.mem_ways_between.mp hstart'
  obtain ⟨-, rfl⟩ := Pattern.mem_ways_between.mp hstart''
  have hshared : IsPatternWord shared.1 := patternWord_of_keyword (by decide) hshared
  have hkey : IsPatternWord key.1 := patternWord_of_keyword (by decide) hkey
  have hlast : GoodLead (key.1 ++ gap.1) := .last hkey (blanks_of_mem hgap)
  have hsameLine : '\n' ∉ line.1 := by
    intro hmem
    simpa using (Pattern.mem_ways_many.mp hline).2 _ hmem
  simp only [List.nil_append]
  exact ⟨⟨_, _, hshared, rfl⟩, hlast.ends.append.append,
    (hlast.breaks.skip hsameLine).skip (newline_not_mem_word hshared)⟩

/-- An expression that hides a token after such a lead. -/
theorem FindsKeys.of_goodLead {m : Masking Char} (hvalue : m.value = token)
    (hlead : ∀ before text way, way ∈ m.lead.ways before text → GoodLead way.1) :
    FindsKeys m := by
  have hgood : ∀ {before text lead value rest}, m.match? before text = some (lead, value, rest) →
      GoodLead lead := by
    intro before text lead value rest h
    obtain ⟨left, hmem, -⟩ := Masking.ways_of_match? h
    exact hlead _ _ _ hmem
  have htoken : ∀ {before text lead value rest}, m.match? before text = some (lead, value, rest) →
      value ≠ [] ∧ ∀ c ∈ value, isSpace c = false := by
    intro before text lead value rest h
    obtain ⟨left, -, hmem⟩ := Masking.ways_of_match? h
    rw [hvalue] at hmem
    obtain ⟨-, hne, hall⟩ := Pattern.mem_ways_some'.mp hmem
    exact ⟨hne, fun c hc => by simpa using hall c hc⟩
  refine { begins := fun h => (hgood h).begins, ends := fun h => (hgood h).ends,
           closes := fun h => ?_, tokens := fun h => (htoken h).2,
           breaks := fun h => (hgood h).breaks }
  obtain ⟨hne, hall⟩ := htoken h
  exact ⟨_, _, (List.dropLast_concat_getLast hne).symm, hall _ (List.getLast_mem hne)⟩

theorem findsKeys_isakmpKey : FindsKeys (isakmpKey w) :=
  .of_goodLead rfl fun _ _ _ => goodLead_isakmpKey

theorem findsKeys_serverKey : FindsKeys (serverKey w) :=
  .of_goodLead rfl fun _ _ _ => goodLead_serverKey

theorem findsKeys_preSharedKey : FindsKeys (preSharedKey w) :=
  .of_goodLead rfl fun _ _ _ => goodLead_preSharedKey

/-! A token that stays: after a letter that ends no lead, no expression hides it. -/

/-- The last letters of the keywords. -/
def lastLetters : List Char := ['d', 't', 'y', 'g', 'o', 'p', 'r']

/-- The last letter of a keyword, or a type digit. -/
def LeadEnd (c : Char) : Prop := fold c ∈ lastLetters ∨ c ∈ secretDigits

/-- The text holds a token of this length that follows no lead. -/
def Shows (n : ℕ) (text : List Char) : Prop :=
  ∃ front k tail, text = front ++ [k, ' '] ++ (List.replicate n 'x' ++ ' ' :: tail) ∧
    isSpace k = false ∧ ¬ LeadEnd k

theorem EndsOnWord.exists_end (w : Letters) (h : EndsOnWord text) :
    ∃ front c gap, text = front ++ [c] ++ gap ∧ LeadEnd c ∧ isSpace c = false ∧ Blanks gap := by
  obtain ⟨front, word, tail, rfl, hword, htail | ⟨gap, d, gap', rfl, -, hd, hgap'⟩⟩ := h
  · have hlast : ∀ letters ∈ patternWords.map String.toList,
        letters.getLast?.any (lastLetters.contains ·) = true := by decide
    have hletter := hlast _ hword
    rw [List.getLast?_map] at hletter
    obtain ⟨c, hc, hend⟩ : ∃ c, word.getLast? = some c ∧ fold c ∈ lastLetters := by
      simpa [Option.any_map, Option.any_eq_true] using hletter
    obtain ⟨init, rfl⟩ := List.getLast?_eq_some_iff.mp hc
    have hlower : lastLetters.all Char.isLower = true := by decide
    have hname : w.inName c = true :=
      inName_of_fold (.inl (List.all_eq_true.mp hlower _ hend))
    exact ⟨front ++ init, c, tail, by simp, .inl hend, isSpace_of_inName hname, htail⟩
  · exact ⟨front ++ (word ++ gap), d, gap', by simp, .inr hd, (mem_secretDigits hd).2, hgap'⟩

/-- A text whose last letter before its one blank ends no lead is no lead. -/
theorem not_endsOnWord (w : Letters) {k : Char} (hk : isSpace k = false) (hend : ¬ LeadEnd k) :
    ¬ EndsOnWord (front ++ [k, ' ']) := by
  intro h
  obtain ⟨front', c, gap, heq, hc, hspace, hgap⟩ := h.exists_end w
  obtain ⟨hfront, -⟩ := @split_unique _ (fun c => isSpace c = true) (front ++ [k]) (front' ++ [c])
    [' '] gap (by simpa using heq) blanks_space.2 hgap.2 (by simp [hk]) (by simp [hspace])
  obtain ⟨-, hkc⟩ := List.append_inj' hfront rfl
  obtain rfl : k = c := by simpa using hkc
  exact hend hc

variable {m : Masking Char} {done out rest : List Char}

/-- Where no keyword begins with a letter, no match does. -/
theorem FindsWords.match?_eq_none (hm : FindsWords m) {c : Char}
    (hc : ∀ letters ∈ patternWords.map String.toList, letters.head? ≠ some (fold c)) :
    m.match? before (c :: rest) = none := by
  cases h : m.match? before (c :: rest) with
  | none => rfl
  | some found =>
    obtain ⟨lead, value, rest'⟩ := found
    have htext := Masking.append_of_match? h
    obtain ⟨word, more, hword, rfl⟩ := hm.begins h
    cases word with
    | nil => exact absurd hword (by unfold IsPatternWord; decide)
    | cons k word =>
      obtain ⟨rfl, -⟩ := List.cons.inj htext
      exact absurd rfl (hc _ hword)

theorem mask_eq : mask = "<redacted".toList ++ ['>'] := by decide

/-- A place after a blank: the blank was kept, and so was the letter before it, unless a value
ended there and the mask was written. -/
theorem out_of_visits (hm : FindsWords m) {k : Char} (hk : isSpace k = false)
    (h : m.Visits mask text ⟨done ++ [k, ' '], out, rest⟩) (hend : ¬ LeadEnd k) :
    ∃ out' k', out = out' ++ [k', ' '] ∧ isSpace k' = false ∧ ¬ LeadEnd k' := by
  have hsplit : done ++ [k, ' '] = (done ++ [k]) ++ [' '] := by simp
  rw [hsplit] at h
  rcases Masking.last_step h with ⟨out₁, rfl, h₁⟩ | ⟨p, lead, value, -, hmatch, heq, -⟩
  · rcases Masking.last_step h₁ with ⟨out₂, rfl, -⟩ | ⟨p, lead, value, -, -, -, rfl⟩
    · exact ⟨out₂, k, by simp, hk, hend⟩
    · refine ⟨p.out ++ (lead ++ "<redacted".toList), '>', ?_, by decide, ?_⟩
      · rw [mask_eq]
        simp only [List.append_assoc, List.singleton_append]
      · unfold LeadEnd
        decide
  · obtain ⟨init, c, rfl, hc⟩ := hm.closes hmatch
    have hlast : c = ' ' := by
      have := congrArg List.getLast? heq
      simpa [← List.append_assoc] using this
    rw [hlast] at hc
    exact absurd hc (by decide)

/-- A lead that begins before a blank begins before the letter in front of it. -/
theorem exists_ahead (hm : FindsWords m) {front ahead : List Char} {k : Char} {p : Place Char}
    {more value : List Char} (hfront : front ++ [k, ' '] = p.done ++ ahead) (hne : ahead ≠ [])
    (h : m.match? p.done.getLast? p.rest = some (ahead ++ more, value, rest)) :
    ∃ ahead', ahead = ahead' ++ [k, ' '] := by
  have hblank : ahead ≠ [' '] := by
    rintro rfl
    have htext := Masking.append_of_match? h
    rw [← htext, List.append_assoc, List.singleton_append, hm.match?_eq_none (by decide)] at h
    exact absurd h (by simp)
  rcases List.append_eq_append_iff.mp hfront with ⟨inside, -, hinside⟩ | ⟨inside, -, rfl⟩
  · rcases inside with - | ⟨a, - | ⟨b, inside⟩⟩
    · exact ⟨[], hinside.symm⟩
    · exact absurd (List.cons.inj hinside).2.symm hblank
    · simp_all
  · exact ⟨inside, rfl⟩

/-- A lead that ends beyond a token ends beyond the blank after it. -/
theorem exists_more (hm : FindsWords m) {ahead more value tail : List Char} {n : ℕ}
    (hmore : more ≠ []) (hback : List.replicate n 'x' ++ ' ' :: tail = more ++ (value ++ rest))
    (h : m.match? before text = some (ahead ++ more, value, rest)) :
    ∃ more', more = List.replicate n 'x' ++ ' ' :: more' := by
  have hletters : ¬ ∀ c ∈ more, c = 'x' := by
    intro hall
    obtain ⟨front, word, tail', hlead, -, htail⟩ := hm.ends h
    obtain ⟨gap, hgap⟩ : ∃ gap init, Blanks gap ∧ ahead ++ more = init ++ gap := by
      rcases htail with htail | ⟨gap, d, gap', rfl, -, -, hgap'⟩
      · exact ⟨tail', front ++ word, htail, by simpa using hlead⟩
      · exact ⟨gap', front ++ (word ++ (gap ++ [d])), hgap', by simpa using hlead⟩
    obtain ⟨init, hgap, heq⟩ := hgap
    have hlast := congrArg List.getLast? heq
    rw [List.getLast?_append_of_ne_nil _ hmore, List.getLast?_append_of_ne_nil _ hgap.1,
      List.getLast?_eq_some_getLast hmore, List.getLast?_eq_some_getLast hgap.1] at hlast
    have hspace := hgap.2 _ (List.getLast_mem hgap.1)
    rw [← Option.some.inj hlast, hall _ (List.getLast_mem hmore)] at hspace
    exact absurd hspace (by decide)
  rcases List.append_eq_append_iff.mp hback with ⟨more', rfl, hmore'⟩ | ⟨more', hreplicate, -⟩
  · cases more' with
    | nil =>
      rw [List.append_nil] at hletters
      exact absurd (fun c => List.eq_of_mem_replicate) hletters
    | cons c more' =>
      obtain ⟨rfl, -⟩ := List.cons.inj hmore'
      exact ⟨more', rfl⟩
  · refine absurd (fun c hc => ?_) hletters
    have hmem : c ∈ List.replicate n 'x' := by rw [hreplicate]; simp [hc]
    exact List.eq_of_mem_replicate hmem

/-- A token that follows no lead is still there after the substitution, where no value of a match
reaches into it. -/
theorem shows_sub (hm : FindsWords m) {front tail : List Char} {k : Char} {n : ℕ}
    (hk : isSpace k = false) (hend : ¬ LeadEnd k)
    (hvalue : ∀ p lead inside beyond rest, beyond ≠ [] →
      m.Crosses mask (front ++ [k, ' ']) (List.replicate n 'x' ++ ' ' :: tail) p lead
        (inside ++ beyond) rest → front ++ [k, ' '] ≠ p.done ++ (lead ++ inside)) :
    Shows n (m.sub mask (front ++ [k, ' '] ++ (List.replicate n 'x' ++ ' ' :: tail))) := by
  rcases Masking.visits_or_crosses (front ++ [k, ' ']) (List.replicate n 'x' ++ ' ' :: tail) with
    ⟨out, hvisits⟩ | ⟨p, lead, value, rest, hcrosses⟩
  · obtain ⟨out', k', rfl, hk', hend'⟩ := out_of_visits hm hk hvisits hend
    have hkeep : m.Reaches mask
        ⟨front ++ [k, ' '], out' ++ [k', ' '], List.replicate n 'x' ++ ' ' :: tail⟩
        ⟨front ++ [k, ' '] ++ List.replicate n 'x', out' ++ [k', ' '] ++ List.replicate n 'x',
          ' ' :: tail⟩ := Masking.reaches_keep _ _ fun init a back heq => by
      obtain rfl : a = 'x' := List.eq_of_mem_replicate (by rw [heq]; simp)
      exact hm.match?_eq_none (by decide)
    rw [Masking.sub_of_visits (hvisits.trans hkeep),
      Masking.subFrom_keep (hm.match?_eq_none (by decide))]
    exact ⟨out', k', _, by rw [List.append_assoc], hk', hend'⟩
  · obtain ⟨ahead, hfront, hne, hcase⟩ := hcrosses.in_lead_or_value
    rcases hcase with ⟨more, hmore, rfl, hback⟩ | ⟨inside, beyond, hbeyond, rfl, rfl, -⟩
    · -- the lead holds the whole token, and it is kept
      obtain ⟨ahead', rfl⟩ := exists_ahead hm hfront hne hcrosses.found
      obtain ⟨more', rfl⟩ := exists_more hm hmore hback hcrosses.found
      rw [Masking.sub_of_visits (hcrosses.visits.tail (.hide hcrosses.found))]
      generalize m.subFrom mask _ 0 rest = left
      exact ⟨p.out ++ ahead', k, more' ++ (mask ++ left), by simp, hk, hend⟩
    · exact absurd hfront (hvalue p lead inside beyond rest hbeyond hcrosses)

/-- The expressions for keys leave such a token where it is. -/
theorem FindsKeys.shows_sub (w : Letters) (hm : FindsKeys m) {n : ℕ} (h : Shows n text) :
    Shows n (m.sub mask text) := by
  obtain ⟨front, k, tail, rfl, hk, hend⟩ := h
  refine KeyPatterns.shows_sub hm.toFindsWords hk hend ?_
  intro p lead inside beyond rest _ hcross heq
  cases inside using List.reverseRecOn with
  | nil =>
    rw [List.append_nil] at heq
    exact not_endsOnWord w hk hend (heq ▸ (hm.ends hcross.found).append)
  | append_singleton init c _ =>
    have hlast := congrArg List.getLast? heq
    obtain rfl : ' ' = c := by simpa [← List.append_assoc] using hlast
    have hspace := hm.tokens hcross.found ' ' (by simp)
    exact absurd hspace (by decide)

theorem Shows.le_length {n : ℕ} (h : Shows n text) : n ≤ text.length := by
  obtain ⟨front, k, tail, rfl, -, -⟩ := h
  simp only [List.length_append, List.length_replicate]
  omega

/-- What the first expression leaves of a token, the display leaves. -/
theorem le_length_redactForDisplay (w : Letters) {n : ℕ}
    (h : Shows n ((secretAssignment w).sub mask text)) :
    n ≤ (redactForDisplay w text).length :=
  (findsKeys_preSharedKey.shows_sub w (findsKeys_serverKey.shows_sub w
    (findsKeys_isakmpKey.shows_sub w h))).le_length

end ConfigBackup.KeyPatterns
