import Mathlib
import ConfigBackup.SearchPatterns
import ConfigBackup.Text

/-!
The redaction of text configurations. Four expressions are substituted one after the
other: each keeps what leads to a secret and writes a mask for the secret itself.
-/

namespace ConfigBackup.SecretPatterns

open SearchPatterns Text

/-- The letter that an expression compares when it ignores case. Four letters outside ASCII
fold into it. -/
def fold (c : Char) : Char :=
  if c = '\u0130' ∨ c = '\u0131' then 'i'
  else if c = '\u017f' then 's'
  else if c = '\u212a' then 'k'
  else c.toLower

/-- `str.isalnum` of one character, as far as the expressions rely on it. -/
structure Letters where
  isalnum : Char → Bool
  letter : ∀ c, (fold c).isLower = true → isalnum c = true
  digit : ∀ c, c.isDigit = true → isalnum c = true
  blank : ∀ c, isSpace c = true → isalnum c = false
  quote : isalnum '"' = false ∧ isalnum '\'' = false

namespace Letters

variable (w : Letters)

/-- `\w`. -/
def isWord (c : Char) : Bool := w.isalnum c || c == '_'

/-- `[\w-]`. -/
def inName (c : Char) : Bool := w.isWord c || c == '-'

/-- `(?<![\w-])`. -/
def startsName : Pattern Char := .between fun before _ => !before.any w.inName

/-- `\b`. -/
def boundary : Pattern Char :=
  .between fun before after => before.any w.isWord != after.any w.isWord

end Letters

def keyword (letters : String) : Pattern Char := .word fold letters.toList

/-- `\s+`. -/
def blanks : Pattern Char := .some' isSpace

/-- `\S+`. -/
def token : Pattern Char := .some' fun c => !isSpace c

/-- A quoted string: `"[^"]*"` for the quotation mark. -/
def quoted (mark : Char) : Pattern Char :=
  .seq (.one (· == mark)) (.seq (.many (· != mark)) (.one (· == mark)))

/-- `(?:(?:0|7)\s+)?` for the digits given. -/
def digitThenBlanks (digits : List Char) : Pattern Char :=
  .maybe (.seq (.one (digits.contains ·)) blanks)

theorem token_ne {before : Option Char} {text : List Char} {way : List Char × List Char}
    (h : way ∈ token.ways before text) : way.1 ≠ [] := (Pattern.mem_ways_some'.mp h).2.1

theorem mem_ways_quoted {mark : Char} {before : Option Char} {text : List Char}
    {way : List Char × List Char} :
    way ∈ (quoted mark).ways before text ↔
      ∃ inner, mark ∉ inner ∧ way.1 = mark :: (inner ++ [mark]) ∧ text = way.1 ++ way.2 := by
  obtain ⟨read, rest⟩ := way
  simp only [quoted, Pattern.mem_ways_seq, Pattern.mem_ways_one, Pattern.mem_ways_many,
    beq_iff_eq, bne_iff_ne, Prod.exists, Prod.mk.injEq]
  constructor
  · rintro ⟨front, left, ⟨a, rfl, rfl, rfl⟩, more, left',
      ⟨inner, left'', ⟨rfl, hinner⟩, last, rest', ⟨b, rfl, rfl, rfl⟩, rfl, rfl⟩, rfl, rfl⟩
    exact ⟨inner, fun hmem => hinner _ hmem rfl, rfl, by simp⟩
  · rintro ⟨inner, hinner, rfl, rfl⟩
    refine ⟨[mark], inner ++ (mark :: rest), ⟨mark, rfl, rfl, by simp⟩, inner ++ [mark], rest,
      ⟨inner, mark :: rest, ⟨rfl, ?_⟩, [mark], rest, ⟨mark, rfl, rfl, rfl⟩, rfl, rfl⟩, rfl, rfl⟩
    rintro c hc rfl
    exact hinner hc

def secretWords : List String :=
  ["password", "secret", "community", "key-string", "authentication-key"]

def secretDigits : List Char := ['0', '4', '5', '6', '7', '8', '9']

variable (w : Letters)

def secretAssignment : Masking Char where
  lead := .seq w.startsName (.seq (.anyOf (secretWords.map keyword))
    (.seq blanks (digitThenBlanks secretDigits)))
  value := .alt (quoted '"') (.alt (quoted '\'') token)
  value_ne := by
    intro before text way h
    rcases Pattern.mem_ways_alt.mp h with h | h
    · obtain ⟨inner, -, hread, -⟩ := mem_ways_quoted.mp h
      simp [hread]
    · rcases Pattern.mem_ways_alt.mp h with h | h
      · obtain ⟨inner, -, hread, -⟩ := mem_ways_quoted.mp h
        simp [hread]
      · exact token_ne h

def isakmpKey : Masking Char where
  lead := .seq w.boundary (.seq (keyword "crypto") (.seq blanks (.seq (keyword "isakmp")
    (.seq blanks (.seq (keyword "key") blanks)))))
  value := token
  value_ne _ _ _ h := token_ne h

def serverKey : Masking Char where
  lead := .seq w.boundary (.seq (.anyOf (["tacacs-server", "radius-server"].map keyword))
    (.seq blanks (.seq (keyword "key") (.seq blanks (digitThenBlanks ['0', '6', '7'])))))
  value := token
  value_ne _ _ _ h := token_ne h

def preSharedKey : Masking Char where
  lead := .seq w.boundary (.seq (keyword "pre-shared-key") (.seq w.boundary
    (.seq (.many (· != '\n')) (.seq w.boundary (.seq (keyword "key") blanks)))))
  value := token
  value_ne _ _ _ h := token_ne h

def mask : List Char := "<redacted>".toList

def redactForDisplay (text : List Char) : List Char :=
  let redacted := (secretAssignment w).sub mask text
  let redacted := (isakmpKey w).sub mask redacted
  let redacted := (serverKey w).sub mask redacted
  (preSharedKey w).sub mask redacted

/-! What the expression for secret assignments reads. -/

def Blanks (s : List Char) : Prop := s ≠ [] ∧ ∀ c ∈ s, isSpace c = true

theorem blanks_space : Blanks [' '] := by
  refine ⟨by simp, fun c hc => ?_⟩
  rw [List.mem_singleton.mp hc]
  decide

def IsMark (c : Char) : Prop := c = '"' ∨ c = '\''

/-- A string between two marks of one kind. -/
def Quoted (value : List Char) : Prop :=
  ∃ mark inner, IsMark mark ∧ mark ∉ inner ∧ value = mark :: (inner ++ [mark])

/-- A token up to the next blank that opens no quoted string. -/
def BareToken (value after : List Char) : Prop :=
  value ≠ [] ∧ (∀ c ∈ value, isSpace c = false) ∧ (∀ c ∈ after.head?, isSpace c = true) ∧
    ∀ mark rest, IsMark mark → value = mark :: rest → mark ∉ rest ++ after

def IsValue (value after : List Char) : Prop := Quoted value ∨ BareToken value after

/-- A text that begins with a type digit and goes on after blanks. -/
def StartsTyped (text : List Char) : Prop :=
  ∃ d gap c rest, d ∈ secretDigits ∧ Blanks gap ∧ isSpace c = false ∧ text = d :: (gap ++ c :: rest)

def IsSecretWord (word : List Char) : Prop :=
  word.map fold ∈ secretWords.map String.toList

/-- The readings of a secret assignment: the letter before it, the lead, the value, the rest. -/
inductive Reads (before : Option Char) : List Char → List Char → List Char → Prop
  | plain {word gap value rest : List Char} (starts : ∀ c ∈ before, w.inName c = false)
    (isWord : IsSecretWord word) (isGap : Blanks gap) (isValue : IsValue value rest)
    (untyped : ¬ StartsTyped (value ++ rest)) : Reads before (word ++ gap) value rest
  | typed {word gap gap' value rest : List Char} {d : Char}
    (starts : ∀ c ∈ before, w.inName c = false) (isWord : IsSecretWord word) (isGap : Blanks gap)
    (isDigit : d ∈ secretDigits) (isGap' : Blanks gap') (isValue : IsValue value rest) :
    Reads before (word ++ (gap ++ d :: gap')) value rest

variable {w} {before : Option Char} {text lead value rest : List Char}

theorem firstThen_token {β : Type*} {next : List Char × List Char → Option β} {found : β}
    (hne : value ≠ []) (hvalue : ∀ c ∈ value, isSpace c = false)
    (hrest : ∀ c ∈ rest.head?, isSpace c = true) (hnext : next (value, rest) = some found) :
    token.firstThen before (value ++ rest) next = some found := by
  refine Pattern.firstThen_of_head? (Pattern.head?_ways_some' hne ?_ ?_) hnext
  · intro c hc
    simp [hvalue c hc]
  · intro c hc
    simp [hrest c hc]

theorem firstThen_blanks {β : Type*} {next : List Char × List Char → Option β} {found : β}
    {gap : List Char} (hgap : Blanks gap) (hrest : ∀ c ∈ rest.head?, isSpace c = false)
    (hnext : next (gap, rest) = some found) :
    blanks.firstThen before (gap ++ rest) next = some found :=
  Pattern.firstThen_of_head? (Pattern.head?_ways_some' hgap.1 hgap.2 hrest) hnext

theorem firstThen_quoted {β : Type*} {next : List Char × List Char → Option β} {mark : Char}
    {inner : List Char} (hinner : mark ∉ inner) :
    (quoted mark).firstThen before (mark :: (inner ++ [mark]) ++ rest) next =
      next (mark :: (inner ++ [mark]), rest) := by
  refine Pattern.firstThen_of_unique (mem_ways_quoted.mpr ⟨inner, hinner, rfl, rfl⟩) ?_
  rintro ⟨read, rest'⟩ hway
  obtain ⟨inner', hinner', hread, htext⟩ := mem_ways_quoted.mp hway
  simp only at hread htext
  subst hread
  have heq : inner ++ mark :: rest = inner' ++ mark :: rest' := by simpa using htext
  obtain ⟨rfl, rfl⟩ := split_first_unique heq hinner hinner'
  rfl

theorem firstThen_quoted_none {β : Type*} {next : List Char × List Char → Option β} {mark : Char}
    (h : ∀ tail, text = mark :: tail → mark ∉ tail) :
    (quoted mark).firstThen before text next = none := by
  refine Pattern.firstThen_eq_none fun way hway => ?_
  obtain ⟨inner, -, hread, htext⟩ := mem_ways_quoted.mp hway
  rw [hread] at htext
  exact absurd (by simp) (h _ htext)

/-- A value is read as it stands. -/
theorem firstThen_value {β : Type*} {next : List Char × List Char → Option β} {found : β}
    (hvalue : IsValue value rest) (hnext : next (value, rest) = some found) :
    (secretAssignment w).value.firstThen before (value ++ rest) next = some found := by
  rw [secretAssignment, Pattern.firstThen_alt, Pattern.firstThen_alt]
  rcases hvalue with ⟨mark, inner, rfl | rfl, hinner, rfl⟩ | ⟨hne, hvalue, hrest, hmark⟩
  · rw [firstThen_quoted hinner, hnext, Option.some_or]
  · rw [firstThen_quoted_none (by simp), firstThen_quoted hinner, hnext, Option.none_or,
      Option.some_or]
  · have hnone : ∀ mark, IsMark mark →
        (quoted mark).firstThen before (value ++ rest) next = none := by
      intro mark hkind
      refine firstThen_quoted_none fun tail htext => ?_
      obtain ⟨c, more, rfl⟩ := List.exists_cons_of_ne_nil hne
      obtain ⟨rfl, rfl⟩ := List.cons.inj htext
      exact hmark _ more hkind rfl
    rw [hnone _ (.inl rfl), hnone _ (.inr rfl), Option.none_or, Option.none_or]
    exact firstThen_token hne hvalue hrest hnext

theorem mem_ways_secretWords {way : List Char × List Char} :
    way ∈ (Pattern.anyOf (secretWords.map keyword)).ways before text ↔
      way.1 ++ way.2 = text ∧ IsSecretWord way.1 := by
  simp only [Pattern.mem_ways_anyOf, List.mem_map, IsSecretWord]
  constructor
  · rintro ⟨_, ⟨letters, hletters, rfl⟩, hway⟩
    obtain ⟨htext, hfold⟩ := Pattern.mem_ways_word.mp hway
    exact ⟨htext, letters, hletters, hfold.symm⟩
  · rintro ⟨htext, letters, hletters, hfold⟩
    exact ⟨_, ⟨letters, hletters, rfl⟩, Pattern.mem_ways_word.mpr ⟨htext, hfold.symm⟩⟩

/-- No secret word is the beginning of another, so a text begins with one at most. -/
theorem secretWord_unique {word word' : List Char} {rest' : List Char}
    (hword : IsSecretWord word) (hword' : IsSecretWord word')
    (h : word ++ rest = word' ++ rest') : word = word' ∧ rest = rest' := by
  have hprefixFree : ∀ a ∈ secretWords.map String.toList, ∀ b ∈ secretWords.map String.toList,
      a <+: b → a = b := by decide
  have hlength : word.length = word'.length := by
    rcases List.append_eq_append_iff.mp h with ⟨more, rfl, -⟩ | ⟨more, rfl, -⟩
    · have := hprefixFree _ hword _ hword' (by simp)
      simpa using congrArg List.length this
    · have := hprefixFree _ hword' _ hword (by simp)
      simpa using (congrArg List.length this).symm
  exact List.append_inj h hlength

theorem firstThen_secretWords {β : Type*} {next : List Char × List Char → Option β}
    {word : List Char} (hword : IsSecretWord word) :
    (Pattern.anyOf (secretWords.map keyword)).firstThen before (word ++ rest) next =
      next (word, rest) := by
  refine Pattern.firstThen_of_unique (mem_ways_secretWords.mpr ⟨rfl, hword⟩) ?_
  rintro ⟨word', rest'⟩ hway
  obtain ⟨htext, hword'⟩ := mem_ways_secretWords.mp hway
  obtain ⟨rfl, rfl⟩ := secretWord_unique hword' hword htext
  rfl

theorem head_of_value (hvalue : IsValue value rest) :
    ∃ c tail, value ++ rest = c :: tail ∧ isSpace c = false := by
  rcases hvalue with ⟨mark, inner, hmark, -, rfl⟩ | ⟨hne, hvalue, -, -⟩
  · refine ⟨mark, _, rfl, ?_⟩
    rcases hmark with rfl | rfl <;> decide
  · obtain ⟨c, more, rfl⟩ := List.exists_cons_of_ne_nil hne
    exact ⟨c, _, rfl, hvalue c List.mem_cons_self⟩

theorem head_of_mem_value {way : List Char × List Char}
    (h : way ∈ (secretAssignment w).value.ways before text) :
    ∃ c tail, text = c :: tail ∧ isSpace c = false := by
  have htext := Pattern.append_of_mem_ways _ h
  rcases Pattern.mem_ways_alt.mp h with h | h
  · obtain ⟨inner, -, hread, -⟩ := mem_ways_quoted.mp h
    exact ⟨'"', _, by rw [← htext, hread]; rfl, by decide⟩
  · rcases Pattern.mem_ways_alt.mp h with h | h
    · obtain ⟨inner, -, hread, -⟩ := mem_ways_quoted.mp h
      exact ⟨'\'', _, by rw [← htext, hread]; rfl, by decide⟩
    · obtain ⟨-, hne, hall⟩ := Pattern.mem_ways_some'.mp h
      obtain ⟨c, more, hread⟩ := List.exists_cons_of_ne_nil hne
      refine ⟨c, more ++ way.2, by rw [← htext, hread]; rfl, ?_⟩
      simpa using hall c (by simp [hread])

theorem mem_secretDigits {d : Char} (h : d ∈ secretDigits) :
    d.isDigit = true ∧ isSpace d = false := by
  have hdigits : secretDigits.all (fun d => d.isDigit && !isSpace d) = true := by decide
  simpa using List.all_eq_true.mp hdigits d h

theorem startsName_accepts (starts : ∀ c ∈ before, w.inName c = false) (after : Option Char) :
    (fun (before _ : Option Char) => !before.any w.inName) before after = true := by
  cases before with
  | none => rfl
  | some c => simp [starts c rfl]

theorem firstThen_lead {β : Type*} {next : List Char × List Char → Option β} {found : β}
    {word gap : List Char} (starts : ∀ c ∈ before, w.inName c = false) (isWord : IsSecretWord word)
    (isGap : Blanks gap) (hrest : ∀ c ∈ rest.head?, isSpace c = false)
    (hnext : (digitThenBlanks secretDigits).firstThen (lastOf before (word ++ gap)) rest
      (fun more => next (word ++ (gap ++ more.1), more.2)) = some found) :
    (secretAssignment w).lead.firstThen before (word ++ (gap ++ rest)) next = some found := by
  rw [secretAssignment, Pattern.firstThen_seq, Letters.startsName,
    Pattern.firstThen_between (startsName_accepts starts (word ++ (gap ++ rest)).head?),
    Pattern.firstThen_seq,
    firstThen_secretWords isWord, Pattern.firstThen_seq]
  refine firstThen_blanks isGap hrest ?_
  simpa only [lastOf_nil, lastOf_append, List.nil_append] using hnext

theorem head?_of_head {c : Char} {tail : List Char} (h : text = c :: tail)
    (hc : isSpace c = false) : ∀ c ∈ text.head?, isSpace c = false := by
  subst text
  simpa using hc

/-- Every reading is the first match at the front of the text. -/
theorem match?_of_reads (h : Reads w before lead value rest) :
    (secretAssignment w).match? before (lead ++ (value ++ rest)) = some (lead, value, rest) := by
  rw [Masking.match?_eq_firstThen]
  cases h with
  | @plain word gap _ _ starts isWord isGap isValue untyped =>
    obtain ⟨c, tail, htext, hc⟩ := head_of_value isValue
    rw [List.append_assoc]
    refine firstThen_lead starts isWord isGap (head?_of_head htext hc) ?_
    -- without a type digit the matcher gives the optional group up
    rw [digitThenBlanks, Pattern.firstThen_maybe, Pattern.firstThen_eq_none, Option.none_or]
    · simp only [List.append_nil]
      exact firstThen_value isValue rfl
    · rintro way hway
      refine Pattern.firstThen_eq_none fun more hmore => absurd ?_ untyped
      obtain ⟨digit, hdigit, blanks', hblanks, rfl⟩ := Pattern.mem_ways_seq.mp hway
      obtain ⟨d, hd, -, htyped⟩ := Pattern.mem_ways_one.mp hdigit
      obtain ⟨hgap, hne, hall⟩ := Pattern.mem_ways_some'.mp hblanks
      obtain ⟨c', tail', hleft, hc'⟩ := head_of_mem_value hmore
      simp only at hleft
      exact ⟨d, blanks'.1, c', tail', by simpa using hd, ⟨hne, hall⟩, hc',
        by rw [htyped, ← hgap, hleft]⟩
  | @typed word gap gap' _ _ d starts isWord isGap isDigit isGap' isValue =>
    obtain ⟨c, tail, htext, hc⟩ := head_of_value isValue
    have hd := (mem_secretDigits isDigit).2
    rw [List.append_assoc, List.append_assoc, List.cons_append]
    refine firstThen_lead starts isWord isGap (by simpa using hd) ?_
    rw [digitThenBlanks, Pattern.firstThen_maybe, Pattern.firstThen_seq]
    have hone : ((Pattern.one (secretDigits.contains ·)).ways (lastOf before (word ++ gap))
        (d :: (gap' ++ (value ++ rest)))).head? = some ([d], gap' ++ (value ++ rest)) := by
      simp [Pattern.ways, isDigit]
    rw [Pattern.firstThen_of_head? hone, Option.some_or]
    refine firstThen_blanks isGap' (head?_of_head htext hc) ?_
    simp only [List.singleton_append]
    exact firstThen_value isValue rfl

/-- After the blanks that open a text comes its first letter that is none. -/
theorem exists_gap (hblank : ∀ c ∈ text.head?, isSpace c = true) (hne : text ≠ [])
    (hmem : ∃ c ∈ text, isSpace c = false) :
    ∃ gap c tail, Blanks gap ∧ isSpace c = false ∧ text = gap ++ c :: tail := by
  obtain ⟨b, more, rfl⟩ := List.exists_cons_of_ne_nil hne
  have hb : isSpace b = true := hblank b rfl
  obtain ⟨d, hd, hdspace⟩ := hmem
  have hd : d ∈ more := by
    rcases List.mem_cons.mp hd with rfl | hd
    · exact absurd hb (by simp [hdspace])
    · exact hd
  have hne : more.dropWhile isSpace ≠ [] := by
    intro hnil
    have := List.dropWhile_eq_nil_iff.mp hnil d hd
    simp [hdspace] at this
  have hhead := List.head_dropWhile_not isSpace hne
  refine ⟨b :: more.takeWhile isSpace, (more.dropWhile isSpace).head hne,
    (more.dropWhile isSpace).tail, ⟨by simp, ?_⟩, hhead, ?_⟩
  · intro c hc
    rcases List.mem_cons.mp hc with rfl | hc
    · exact hb
    · exact List.mem_takeWhile_imp hc
  · rw [List.cons_head_tail, List.cons_append, List.takeWhile_append_dropWhile]

/-- A value can be read wherever the text goes on. -/
theorem exists_value {c : Char} (tail : List Char) (hc : isSpace c = false) :
    ∃ value rest, IsValue value rest ∧ value ++ rest = c :: tail := by
  by_cases hquoted : IsMark c ∧ c ∈ tail
  · obtain ⟨inner, rest, rfl, hinner⟩ := List.eq_append_cons_of_mem hquoted.2
    exact ⟨c :: (inner ++ [c]), rest, .inl ⟨c, inner, hquoted.1, hinner, rfl⟩, by simp⟩
  · refine ⟨c :: tail.takeWhile (fun c => !isSpace c), tail.dropWhile (fun c => !isSpace c),
      .inr ⟨by simp, ?_, ?_, ?_⟩, by simp⟩
    · intro d hd
      rcases List.mem_cons.mp hd with rfl | hd
      · exact hc
      · simpa using List.mem_takeWhile_imp hd
    · intro d hd
      have hdrop := List.head?_dropWhile_not (fun c => !isSpace c) tail
      rw [Option.mem_def.mp hd] at hdrop
      simpa using hdrop
    · intro mark rest hmark heq
      obtain ⟨rfl, rfl⟩ := List.cons.inj heq
      rw [List.takeWhile_append_dropWhile]
      exact fun hmem => hquoted ⟨hmark, hmem⟩

theorem exists_reads {word gap : List Char} {c : Char} (tail : List Char)
    (starts : ∀ c ∈ before, w.inName c = false) (isWord : IsSecretWord word) (isGap : Blanks gap)
    (hc : isSpace c = false) :
    ∃ lead value rest, Reads w before lead value rest ∧
      lead ++ (value ++ rest) = word ++ (gap ++ c :: tail) := by
  by_cases htyped : StartsTyped (c :: tail)
  · obtain ⟨d, gap', c', tail', hd, hgap', hc', heq⟩ := htyped
    obtain ⟨value, rest, hvalue, htext⟩ := exists_value tail' hc'
    exact ⟨_, value, rest, .typed starts isWord isGap hd hgap' hvalue, by rw [heq, htext]; simp⟩
  · obtain ⟨value, rest, hvalue, htext⟩ := exists_value tail hc
    exact ⟨_, value, rest, .plain starts isWord isGap hvalue (by rwa [htext]), by rw [htext]; simp⟩

theorem lead_shape {way : List Char × List Char}
    (h : way ∈ (secretAssignment w).lead.ways before text) :
    (∀ c ∈ before, w.inName c = false) ∧ ∃ word gap, IsSecretWord word ∧ Blanks gap ∧
      (way.1 = word ++ gap ∨
        ∃ d gap', d ∈ secretDigits ∧ Blanks gap' ∧ way.1 = word ++ (gap ++ d :: gap')) := by
  obtain ⟨way₁, hstart, way₂, hseq, rfl⟩ := Pattern.mem_ways_seq.mp h
  obtain ⟨way₃, hword, way₄, hseq', rfl⟩ := Pattern.mem_ways_seq.mp hseq
  obtain ⟨way₅, hgap, way₆, hrest, rfl⟩ := Pattern.mem_ways_seq.mp hseq'
  obtain ⟨hstarts, rfl⟩ := Pattern.mem_ways_between.mp hstart
  obtain ⟨-, hword⟩ := mem_ways_secretWords.mp hword
  obtain ⟨-, hgapne, hgapall⟩ := Pattern.mem_ways_some'.mp hgap
  refine ⟨?_, way₃.1, way₅.1, hword, ⟨hgapne, hgapall⟩, ?_⟩
  · rintro c hc
    obtain rfl := Option.mem_def.mp hc
    simpa using hstarts
  rcases Pattern.mem_ways_maybe.mp hrest with hrest | rfl
  · obtain ⟨way₇, hdigit, way₈, hblanks, rfl⟩ := Pattern.mem_ways_seq.mp hrest
    obtain ⟨d, hd, hread, -⟩ := Pattern.mem_ways_one.mp hdigit
    obtain ⟨-, hne, hall⟩ := Pattern.mem_ways_some'.mp hblanks
    exact .inr ⟨d, way₈.1, by simpa using hd, ⟨hne, hall⟩, by simp [hread]⟩
  · exact .inl (by simp)

/-- The first match at the front of a text is a reading. -/
theorem reads_of_match? (h : (secretAssignment w).match? before text = some (lead, value, rest)) :
    Reads w before lead value rest := by
  obtain ⟨left, hlead, hvalue⟩ := Masking.ways_of_match? h
  have hleft := Pattern.append_of_mem_ways _ hlead
  obtain ⟨c, tail, rfl, hc⟩ := head_of_mem_value hvalue
  obtain ⟨starts, word, gap, hword, hgap, hshape⟩ := lead_shape hlead
  have hreads : ∃ lead' value' rest', Reads w before lead' value' rest' ∧
      lead' ++ (value' ++ rest') = text := by
    rcases hshape with hshape | ⟨d, gap', hd, hgap', hshape⟩
    · obtain ⟨lead', value', rest', hreads, htext⟩ := exists_reads tail starts hword hgap hc
      refine ⟨lead', value', rest', hreads, ?_⟩
      rw [htext, ← hleft, hshape, List.append_assoc]
    · obtain ⟨lead', value', rest', hreads, htext⟩ :=
        exists_reads (gap' ++ c :: tail) starts hword hgap (mem_secretDigits hd).2
      refine ⟨lead', value', rest', hreads, ?_⟩
      rw [htext, ← hleft, hshape]
      simp
  obtain ⟨lead', value', rest', hreads, htext⟩ := hreads
  have hmatch := match?_of_reads hreads
  rw [htext, h] at hmatch
  simp only [Option.some.injEq, Prod.mk.injEq] at hmatch
  obtain ⟨rfl, rfl, rfl⟩ := hmatch
  exact hreads

/-! Names, blanks and marks. -/

theorem eq_of_fold_hyphen {c : Char} (h : fold c = '-') : c = '-' := by
  unfold fold at h
  split_ifs at h with hi hs hk
  · exact absurd h (by decide)
  · exact absurd h (by decide)
  · exact absurd h (by decide)
  · unfold Char.toLower at h
    split_ifs at h with hupper
    · have hval : (c.toNat + 32) % 4294967296 = 45 := by
        simpa using congrArg (fun c : Char => c.val.toNat) h
      have hlow : 65 ≤ c.toNat := UInt32.le_iff_toNat_le.mp hupper.1
      have hhigh : c.toNat ≤ 90 := UInt32.le_iff_toNat_le.mp hupper.2
      omega
    · exact h

theorem inName_of_fold {c : Char} (h : (fold c).isLower = true ∨ fold c = '-') :
    w.inName c = true := by
  rcases h with h | h
  · simp [Letters.inName, Letters.isWord, w.letter c h]
  · simp [Letters.inName, eq_of_fold_hyphen h]

theorem inName_of_secretWord {word : List Char} (hword : IsSecretWord word) :
    ∀ c ∈ word, w.inName c = true := by
  intro c hc
  have hletters : ∀ letters ∈ secretWords.map String.toList,
      letters.all (fun k => k.isLower || k == '-') = true := by decide
  have hfold := List.all_eq_true.mp (hletters _ hword) (fold c) (List.mem_map_of_mem hc)
  exact inName_of_fold (by simpa using hfold)

theorem inName_of_digit {d : Char} (h : d.isDigit = true) : w.inName d = true := by
  simp [Letters.inName, Letters.isWord, w.digit d h]

theorem inName_of_space {c : Char} (h : isSpace c = true) : w.inName c = false := by
  have hother : c ≠ '_' ∧ c ≠ '-' := by
    constructor <;> rintro rfl <;> exact absurd h (by decide)
  simp [Letters.inName, Letters.isWord, w.blank c h, hother]

theorem inName_of_mark {c : Char} (h : IsMark c) : w.inName c = false := by
  rcases h with rfl | rfl
  · simp [Letters.inName, Letters.isWord, w.quote.1]
  · simp [Letters.inName, Letters.isWord, w.quote.2]

theorem isSpace_of_inName {c : Char} (h : w.inName c = true) : isSpace c = false := by
  by_contra hspace
  have := inName_of_space (w := w) (c := c) (by simpa using hspace)
  simp [h] at this

theorem secretWord_ne_nil {word : List Char} (hword : IsSecretWord word) : word ≠ [] := by
  rintro rfl
  exact absurd hword (by unfold IsSecretWord; decide)

theorem Reads.starts (h : Reads w before lead value rest) : ∀ c ∈ before, w.inName c = false := by
  cases h with
  | plain starts => exact starts
  | typed starts => exact starts

/-- A lead begins with a secret word. -/
theorem Reads.exists_word (h : Reads w before lead value rest) :
    ∃ word more, IsSecretWord word ∧ lead = word ++ more := by
  cases h with
  | plain _ isWord => exact ⟨_, _, isWord, rfl⟩
  | typed _ isWord => exact ⟨_, _, isWord, rfl⟩

/-- Only whether a name ends before the text matters to a reading. -/
theorem Reads.congr {before' : Option Char} (h : Reads w before lead value rest)
    (hbefore' : ∀ c ∈ before', w.inName c = false) : Reads w before' lead value rest := by
  cases h with
  | plain _ isWord isGap isValue untyped => exact .plain hbefore' isWord isGap isValue untyped
  | typed _ isWord isGap isDigit isGap' isValue =>
    exact .typed hbefore' isWord isGap isDigit isGap' isValue

theorem match?_congr {before' : Option Char} (hbefore : ∀ c ∈ before, w.inName c = false)
    (hbefore' : ∀ c ∈ before', w.inName c = false) (text : List Char) :
    (secretAssignment w).match? before text = (secretAssignment w).match? before' text := by
  have hsome : ∀ {b b' : Option Char} {found}, (∀ c ∈ b', w.inName c = false) →
      (secretAssignment w).match? b text = some found →
      (secretAssignment w).match? b' text = some found := by
    rintro b b' ⟨lead, value, rest⟩ hb' hmatch
    obtain rfl := Masking.append_of_match? hmatch
    exact match?_of_reads ((reads_of_match? hmatch).congr hb')
  cases h : (secretAssignment w).match? before text with
  | some found => exact (hsome hbefore' h).symm
  | none =>
    cases h' : (secretAssignment w).match? before' text with
    | some found => exact absurd ((hsome hbefore h').symm.trans h) (by simp)
    | none => rfl

/-- No match begins with a letter that is in no name. -/
theorem match?_eq_none_of_head {c : Char} (hc : w.inName c = false) :
    (secretAssignment w).match? before (c :: text) = none := by
  cases h : (secretAssignment w).match? before (c :: text) with
  | none => rfl
  | some found =>
    obtain ⟨lead, value, rest⟩ := found
    have htext := Masking.append_of_match? h
    obtain ⟨word, more, hword, rfl⟩ := (reads_of_match? h).exists_word
    obtain ⟨k, word', rfl⟩ := List.exists_cons_of_ne_nil (secretWord_ne_nil hword)
    obtain ⟨rfl, -⟩ := List.cons.inj htext
    simp [inName_of_secretWord hword k List.mem_cons_self] at hc

/-! A match that ends before a statement does not depend on the statement's value. -/

section Local

variable {front after after' : List Char} {a : Char}
  (hfront : ∀ c ∈ front.getLast?, w.inName c = false) (ha : isSpace a = false)

include hfront ha

theorem match?_ne_none_local (hne : front ≠ [])
    (h : (secretAssignment w).match? before (front ++ a :: after') ≠ none) :
    (secretAssignment w).match? before (front ++ a :: after) ≠ none := by
  obtain ⟨⟨lead, value, rest⟩, hmatch⟩ := Option.ne_none_iff_exists'.mp h
  have htext := Masking.append_of_match? hmatch
  obtain ⟨starts, word, gap, c, tail, hword, hgap, hlead⟩ :
      (∀ c ∈ before, w.inName c = false) ∧ ∃ word gap c tail, IsSecretWord word ∧ Blanks gap ∧
        lead ++ (value ++ rest) = word ++ (gap ++ c :: tail) := by
    cases reads_of_match? hmatch with
    | @plain word gap _ _ starts isWord isGap isValue _ =>
      obtain ⟨c, tail, heq, -⟩ := head_of_value isValue
      exact ⟨starts, word, gap, c, tail, isWord, isGap, by rw [heq, List.append_assoc]⟩
    | @typed word gap gap' _ _ d starts isWord isGap _ _ _ =>
      exact ⟨starts, word, gap, d, gap' ++ (value ++ rest), isWord, isGap, by simp⟩
  have hlast : ∀ c ∈ front.getLast?, c ∉ word := fun c hc hmem => by
    have := inName_of_secretWord (w := w) hword c hmem
    simp [hfront c hc] at this
  -- the word ends within the front, and a blank of the front follows it
  obtain ⟨more, rfl, hmore⟩ : ∃ more, front = word ++ more ∧
      gap ++ c :: tail = more ++ a :: after' := by
    rcases List.append_eq_append_iff.mp (htext.symm.trans hlead) with
      ⟨more, rfl, -⟩ | ⟨more, rfl, hmore⟩
    · obtain ⟨init, last, rfl⟩ := List.eq_nil_or_concat front |>.resolve_left hne
      exact absurd (by simp) (hlast last (by simp))
    · exact ⟨more, rfl, hmore⟩
  have hmorene : more ≠ [] := by
    rintro rfl
    obtain ⟨init, last, rfl⟩ := List.eq_nil_or_concat word |>.resolve_left (secretWord_ne_nil hword)
    exact absurd (by simp) (hlast last (by simp))
  obtain ⟨b, more', rfl⟩ := List.exists_cons_of_ne_nil hmorene
  have hb : isSpace b = true := by
    obtain ⟨g, gap', rfl⟩ := List.exists_cons_of_ne_nil hgap.1
    obtain ⟨rfl, -⟩ := List.cons.inj hmore
    exact hgap.2 _ List.mem_cons_self
  obtain ⟨gap', d, tail', hgap', hd, heq⟩ := @exists_gap (b :: more' ++ a :: after)
    (by simpa using hb) (by simp) ⟨a, by simp, ha⟩
  obtain ⟨lead', value', rest', hreads, htext'⟩ := exists_reads tail' starts hword hgap' hd
  rw [List.append_assoc, heq, ← htext', match?_of_reads hreads]
  simp

omit hfront in
theorem bareToken_local (h : BareToken value (rest ++ a :: after)) :
    ∃ b more, rest = b :: more ∧ isSpace b = true := by
  obtain ⟨-, -, hrest, -⟩ := h
  cases rest with
  | nil => exact absurd (hrest a rfl) (by simp [ha])
  | cons b more => exact ⟨b, more, rfl, hrest b rfl⟩

omit hfront in
theorem isValue_local (hmarks : ∀ mark, IsMark mark → mark ∈ after)
    (h : IsValue value (rest ++ a :: after)) : IsValue value (rest ++ a :: after') := by
  rcases h with hquoted | hbare
  · exact .inl hquoted
  · obtain ⟨b, more, rfl, -⟩ := bareToken_local ha hbare
    obtain ⟨hne, hvalue, hrest, hopen⟩ := hbare
    refine .inr ⟨hne, hvalue, hrest, fun mark tail hmark heq _ => ?_⟩
    exact hopen mark tail hmark heq (by simp [hmarks mark hmark])

omit hfront in
theorem startsTyped_local (hvalue : IsValue value (rest ++ a :: after))
    (h : StartsTyped (value ++ (rest ++ a :: after'))) :
    StartsTyped (value ++ (rest ++ a :: after)) := by
  obtain ⟨d, gap, c, tail, hd, hgap, hc, heq⟩ := h
  rcases hvalue with ⟨mark, inner, hmark, -, rfl⟩ | hbare
  · obtain ⟨rfl, -⟩ := List.cons.inj heq
    rcases hmark with rfl | rfl <;> exact absurd hd (by decide)
  · obtain ⟨b, more, rfl, hb⟩ := bareToken_local ha hbare
    obtain ⟨hne, hvalue, -, -⟩ := hbare
    obtain ⟨d', value', rfl⟩ := List.exists_cons_of_ne_nil hne
    obtain ⟨rfl, hrest⟩ := List.cons.inj heq
    -- a second letter of the token would be a blank of the gap
    obtain ⟨g, gap', rfl⟩ := List.exists_cons_of_ne_nil hgap.1
    cases value' with
    | cons c' value' =>
      obtain ⟨rfl, -⟩ := List.cons.inj hrest
      have hspace := hgap.2 c' List.mem_cons_self
      simp [hvalue c' (by simp)] at hspace
    | nil =>
      obtain ⟨gap', c', tail', hgap', hc', heq'⟩ := @exists_gap (b :: more ++ a :: after)
        (by simpa using hb) (by simp) ⟨a, by simp, ha⟩
      exact ⟨d', gap', c', tail', hd, hgap', hc', by rw [heq']; rfl⟩

omit hfront in
theorem match?_local (hmarks : ∀ mark, IsMark mark → mark ∈ after)
    (h : (secretAssignment w).match? before (front ++ a :: after) =
      some (lead, value, rest ++ a :: after)) :
    (secretAssignment w).match? before (front ++ a :: after') =
      some (lead, value, rest ++ a :: after') := by
  have htext := Masking.append_of_match? h
  have hfront' : lead ++ (value ++ rest) = front := by
    have htext' : lead ++ (value ++ rest) ++ a :: after = front ++ a :: after := by
      simpa using htext
    exact List.append_cancel_right htext'
  have hreads : Reads w before lead value (rest ++ a :: after') := by
    cases reads_of_match? h with
    | plain starts isWord isGap isValue untyped =>
      exact .plain starts isWord isGap (isValue_local ha hmarks isValue)
        fun htyped => untyped (startsTyped_local ha isValue htyped)
    | typed starts isWord isGap isDigit isGap' isValue =>
      exact .typed starts isWord isGap isDigit isGap' (isValue_local ha hmarks isValue)
  rw [← hfront']
  simpa using match?_of_reads hreads

/-- The way of the substitution to a statement does not depend on the statement's value, where
one value holds marks of both kinds. -/
theorem visits_local {out : List Char} (hmarks : ∀ mark, IsMark mark → mark ∈ after)
    (h : (secretAssignment w).Visits mask (front ++ a :: after) ⟨front, out, a :: after⟩) :
    (secretAssignment w).Visits mask (front ++ a :: after') ⟨front, out, a :: after'⟩ := by
  suffices hfrom : ∀ p : Place Char, (secretAssignment w).Reaches mask p ⟨front, out, a :: after⟩ →
      ∃ ahead, p.rest = ahead ++ a :: after ∧ p.done ++ ahead = front ∧
        (secretAssignment w).Reaches mask ⟨p.done, p.out, ahead ++ a :: after'⟩
          ⟨front, out, a :: after'⟩ by
    obtain ⟨ahead, hahead, hdone, hreaches⟩ := hfrom _ h
    obtain rfl : ahead = front := hdone
    exact hreaches
  intro p hp
  induction hp using Relation.ReflTransGen.head_induction_on with
  | refl => exact ⟨[], rfl, List.append_nil _, .refl⟩
  | head hstep _ ih =>
    obtain ⟨ahead, hahead, hdone, hreaches⟩ := ih
    cases hstep with
    | @keep done out' rest b hkeep =>
      simp only at hahead hdone hreaches
      subst hahead
      refine ⟨b :: ahead, rfl, by simpa using hdone, ?_⟩
      have hlast : ∀ c ∈ (b :: ahead).getLast?, w.inName c = false := by
        intro c hc
        refine hfront c ?_
        rw [← hdone, List.append_assoc, List.singleton_append, List.getLast?_append, hc]
        rfl
      refine .head (.keep ?_) hreaches
      by_contra hmatch
      exact match?_ne_none_local hlast ha (by simp) hmatch hkeep
    | @hide done out' text lead value rest hmatch =>
      simp only at hahead hdone hreaches
      subst hahead
      obtain rfl := Masking.append_of_match? hmatch
      refine ⟨lead ++ (value ++ ahead), by simp, by rw [← hdone]; simp, ?_⟩
      refine .head (.hide ?_) hreaches
      exact match?_local ha hmarks (by simpa using hmatch)

end Local

end ConfigBackup.SecretPatterns
