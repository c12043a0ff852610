import ConfigBackup.JsonValues

/-!
The text of JSON scalars as the source language writes and reads it. Numbers are scanned for
their integer part, fraction and exponent, and strings are read escape by escape.
-/

namespace ConfigBackup.JsonText

open CodePoints JsonValues

section Numbers

def isDigit (p : CodePoint) : Bool := 0x30 ≤ p.val && p.val ≤ 0x39

/-- `[1-9][0-9]*` or `0`. -/
def scanWhole : PyText → Option (PyText × PyText)
  | [] => none
  | p :: rest =>
    if p = ofChar '0' then some ([p], rest)
    else if isDigit p then some ((p :: rest).takeWhile isDigit, (p :: rest).dropWhile isDigit)
    else none

def scanInteger : PyText → Option (PyText × PyText)
  | [] => none
  | p :: rest =>
    if p = ofChar '-' then (scanWhole rest).map fun (digits, rest) => (p :: digits, rest)
    else scanWhole (p :: rest)

def scanFraction : PyText → PyText × PyText
  | [] => ([], [])
  | p :: rest =>
    if p = ofChar '.' ∧ rest.takeWhile isDigit ≠ [] then
      (p :: rest.takeWhile isDigit, rest.dropWhile isDigit)
    else ([], p :: rest)

def isSign (p : CodePoint) : Bool := p == ofChar '+' || p == ofChar '-'

def scanExponent : PyText → PyText × PyText
  | [] => ([], [])
  | p :: rest =>
    let sign := (rest.take 1).filter isSign
    let digits := (rest.drop sign.length).takeWhile isDigit
    if (p = ofChar 'e' ∨ p = ofChar 'E') ∧ digits ≠ [] then
      (p :: sign ++ digits, (rest.drop sign.length).dropWhile isDigit)
    else ([], p :: rest)

def natText (n : ℕ) : PyText := (Nat.toDigits 10 n).map ofChar

/-- `str(n)`. -/
def intText : ℤ → PyText
  | .ofNat n => natText n
  | .negSucc n => ofChar '-' :: natText (n + 1)

def natValue (digits : PyText) : ℕ := digits.foldl (fun n p => 10 * n + (p.val - 0x30)) 0

/-- `int(text)` for the integer part of a number. -/
def intValue : PyText → ℤ
  | [] => 0
  | p :: rest => if p = ofChar '-' then -(natValue rest : ℤ) else natValue (p :: rest)

structure IsWhole (digits : PyText) : Prop where
  ne_nil : digits ≠ []
  isDigit : ∀ p ∈ digits, isDigit p = true
  zero : digits.head? = some (ofChar '0') → digits = [ofChar '0']

def IsFraction (text : PyText) : Prop :=
  ∃ digits, text = ofChar '.' :: digits ∧ digits ≠ [] ∧ ∀ p ∈ digits, isDigit p = true

def IsExponent (text : PyText) : Prop :=
  ∃ e sign digits, text = e :: (sign ++ digits) ∧ (e = ofChar 'e' ∨ e = ofChar 'E') ∧
    (sign = [] ∨ ∃ s, sign = [s] ∧ isSign s = true) ∧ digits ≠ [] ∧
    ∀ p ∈ digits, isDigit p = true

/-- The integer part, fraction and exponent of a number. -/
structure IsNumber (whole fraction exponent : PyText) : Prop where
  whole : ∃ sign digits, whole = sign ++ digits ∧ (sign = [] ∨ sign = [ofChar '-']) ∧
    IsWhole digits
  fraction : fraction = [] ∨ IsFraction fraction
  exponent : exponent = [] ∨ IsExponent exponent

/-- How the source language writes a finite float and reads a float: what is written is a JSON
number with a fraction or an exponent, and it is read as the float that it was. -/
structure FloatFormat (F : Type) where
  repr : F → PyText
  parse : PyText → PyFloat F
  number : ∀ x, ∃ whole fraction exponent, repr x = whole ++ fraction ++ exponent ∧
    IsNumber whole fraction exponent ∧ ¬ (fraction = [] ∧ exponent = [])
  parse_repr : ∀ x, parse (repr x) = .finite x

variable {F : Type} {whole fraction exponent rest : PyText}

def readNumber (format : FloatFormat F) (text : PyText) : Option (Scalar F × PyText) :=
  match scanInteger text with
  | none => none
  | some (whole, rest) =>
    let (fraction, rest) := scanFraction rest
    let (exponent, rest) := scanExponent rest
    if fraction = [] ∧ exponent = [] then some (.int (intValue whole), rest)
    else some (.float (format.parse (whole ++ fraction ++ exponent)), rest)

/-- What follows a number does not continue it. -/
def Ends (rest : PyText) : Prop :=
  ∀ p, rest.head? = some p →
    isDigit p = false ∧ p ≠ ofChar '.' ∧ p ≠ ofChar 'e' ∧ p ≠ ofChar 'E'

theorem takeWhile_digits {digits : PyText} (hdigits : ∀ p ∈ digits, isDigit p = true)
    (hrest : ∀ p, rest.head? = some p → isDigit p = false) :
    (digits ++ rest).takeWhile isDigit = digits ∧ (digits ++ rest).dropWhile isDigit = rest := by
  rw [List.takeWhile_append_of_pos hdigits, List.dropWhile_append_of_pos hdigits]
  cases rest with
  | nil => simp
  | cons p rest =>
    have hp := hrest p rfl
    rw [List.takeWhile_cons_of_neg (by simp [hp]), List.dropWhile_cons_of_neg (by simp [hp])]
    simp

theorem scanWhole_append {digits : PyText} (h : IsWhole digits)
    (hrest : ∀ p, rest.head? = some p → isDigit p = false) :
    scanWhole (digits ++ rest) = some (digits, rest) := by
  obtain ⟨htake, hdrop⟩ := takeWhile_digits h.isDigit hrest
  cases digits with
  | nil => exact absurd rfl h.ne_nil
  | cons p digits =>
    rw [List.cons_append] at htake hdrop ⊢
    rw [scanWhole]
    by_cases hp : p = ofChar '0'
    · have hzero := h.zero (by rw [hp]; rfl)
      rw [hp] at hzero
      obtain rfl : digits = [] := (List.cons.inj hzero).2
      rw [if_pos hp]
      rfl
    · rw [if_neg hp, if_pos (h.isDigit p List.mem_cons_self), htake, hdrop]

theorem isDigit_minus : isDigit (ofChar '-') = false := rfl

theorem scanInteger_append {sign digits : PyText} (hsign : sign = [] ∨ sign = [ofChar '-'])
    (h : IsWhole digits) (hrest : ∀ p, rest.head? = some p → isDigit p = false) :
    scanInteger (sign ++ digits ++ rest) = some (sign ++ digits, rest) := by
  have hwhole := scanWhole_append h hrest
  rcases hsign with rfl | rfl
  · cases digits with
    | nil => exact absurd rfl h.ne_nil
    | cons p digits =>
      have hp : p ≠ ofChar '-' := by
        rintro rfl
        have hdigit := h.isDigit _ List.mem_cons_self
        rw [isDigit_minus] at hdigit
        cases hdigit
      rw [List.nil_append, List.cons_append, scanInteger, if_neg hp]
      exact hwhole
  · rw [List.append_assoc, List.singleton_append, scanInteger, if_pos rfl, hwhole]
    rfl

theorem scanFraction_append (h : fraction = [] ∨ IsFraction fraction)
    (hrest : ∀ p, rest.head? = some p → isDigit p = false ∧ p ≠ ofChar '.') :
    scanFraction (fraction ++ rest) = (fraction, rest) := by
  rcases h with rfl | ⟨digits, rfl, hne, hdigits⟩
  · cases rest with
    | nil => rfl
    | cons p rest =>
      rw [List.nil_append, scanFraction, if_neg]
      exact fun h => (hrest p rfl).2 h.1
  · obtain ⟨htake, hdrop⟩ := takeWhile_digits hdigits fun p hp => (hrest p hp).1
    rw [List.cons_append, scanFraction, htake, hdrop, if_pos ⟨rfl, hne⟩]

theorem scanExponent_append (h : exponent = [] ∨ IsExponent exponent) (hrest : Ends rest) :
    scanExponent (exponent ++ rest) = (exponent, rest) := by
  rcases h with rfl | ⟨e, sign, digits, rfl, he, hsign, hne, hdigits⟩
  · cases rest with
    | nil => rfl
    | cons p rest =>
      obtain ⟨-, -, hlower, hupper⟩ := hrest p rfl
      rw [List.nil_append, scanExponent]
      exact if_neg fun h => h.1.elim hlower hupper
  · obtain ⟨htake, hdrop⟩ := takeWhile_digits hdigits fun p hp => (hrest p hp).1
    have hscan : ((sign ++ digits ++ rest).take 1).filter isSign = sign := by
      rcases hsign with rfl | ⟨s, rfl, hs⟩
      · cases digits with
        | nil => exact absurd rfl hne
        | cons p digits =>
          have hp : isSign p = false := by
            have hdigit := hdigits p List.mem_cons_self
            by_contra hnot
            rw [Bool.not_eq_false, isSign, Bool.or_eq_true, beq_iff_eq, beq_iff_eq] at hnot
            rcases hnot with rfl | rfl
            · cases hdigit
            · cases hdigit
          simp [hp]
      · simp [hs]
    have hdropSign : (sign ++ digits ++ rest).drop sign.length = digits ++ rest := by
      rw [List.append_assoc, List.drop_left]
    rw [List.cons_append, scanExponent, hscan, hdropSign, htake, hdrop]
    exact if_pos ⟨he, hne⟩

theorem isDigit_of_mem_natText {n : ℕ} {p : CodePoint} (hp : p ∈ natText n) :
    isDigit p = true := by
  obtain ⟨c, hc, rfl⟩ := List.mem_map.mp hp
  have hdigit := Nat.isDigit_of_mem_toDigits (by omega) (by omega) hc
  simp only [Char.isDigit, Bool.and_eq_true, decide_eq_true_eq] at hdigit
  exact Bool.and_eq_true_iff.mpr ⟨decide_eq_true hdigit.1, decide_eq_true hdigit.2⟩

/-- A number other than zero does not begin with a zero. -/
theorem head?_toDigits {n : ℕ} (h : 0 < n) : (Nat.toDigits 10 n).head? ≠ some '0' := by
  induction n using Nat.strong_induction_on with
  | _ n ih =>
    by_cases hn : n < 10
    · rw [Nat.toDigits_of_lt_base hn]
      interval_cases n <;> decide
    · have hfront := ih (n / 10) (by omega) (by omega)
      rw [Nat.toDigits_of_base_le (by omega) (by omega), List.head?_append_of_ne_nil _
        Nat.toDigits_ne_nil]
      exact hfront

theorem isWhole_natText (n : ℕ) : IsWhole (natText n) := by
  refine ⟨?_, fun p hp => isDigit_of_mem_natText hp, ?_⟩
  · unfold natText
    exact fun hnil => Nat.toDigits_ne_nil (List.map_eq_nil_iff.mp hnil)
  · intro hhead
    by_cases hn : n = 0
    · subst hn
      rfl
    · unfold natText at hhead
      rw [List.head?_map, Option.map_eq_some_iff] at hhead
      obtain ⟨c, hc, heq⟩ := hhead
      have hzero : c = '0' := by
        have hchar := congrArg toChar? heq
        rw [toChar?_ofChar, toChar?_ofChar] at hchar
        exact Option.some.inj hchar
      rw [hzero] at hc
      exact absurd hc (head?_toDigits (Nat.pos_of_ne_zero hn))

theorem natValue_natText (n : ℕ) : natValue (natText n) = n := by
  unfold natValue natText
  rw [List.foldl_map]
  have hvalue := @Nat.ofDigitChars_ten_toDigits n
  rw [Nat.ofDigitChars_eq_foldl] at hvalue
  exact hvalue

theorem intValue_intText (n : ℤ) : intValue (intText n) = n := by
  cases n with
  | ofNat n =>
    have hvalue := natValue_natText n
    rw [intText]
    cases htext : natText n with
    | nil =>
      rw [htext] at hvalue
      rw [← hvalue]
      rfl
    | cons p rest =>
      have hp : p ≠ ofChar '-' := by
        rintro rfl
        have hdigit := @isDigit_of_mem_natText n (ofChar '-') (by rw [htext]; exact
          List.mem_cons_self)
        rw [isDigit_minus] at hdigit
        cases hdigit
      rw [htext] at hvalue
      rw [intValue, if_neg hp, hvalue]
      rfl
  | negSucc n =>
    rw [intText, intValue, if_pos rfl, natValue_natText]
    rfl

/-- The parts of a number are found again. -/
theorem readNumber_append (format : FloatFormat F) (h : IsNumber whole fraction exponent)
    (hrest : Ends rest) : readNumber format (whole ++ fraction ++ exponent ++ rest) =
      if fraction = [] ∧ exponent = [] then some (.int (intValue whole), rest)
      else some (.float (format.parse (whole ++ fraction ++ exponent)), rest) := by
  obtain ⟨sign, digits, rfl, hsign, hdigits⟩ := h.whole
  have hexponent := scanExponent_append h.exponent hrest
  have hedge : ∀ p, (exponent ++ rest).head? = some p → isDigit p = false ∧ p ≠ ofChar '.' := by
    intro p hp
    rcases h.exponent with rfl | ⟨e, _, _, rfl, he, -⟩
    · exact ⟨(hrest p hp).1, (hrest p hp).2.1⟩
    · obtain rfl : e = p := Option.some.inj hp
      rcases he with rfl | rfl
      · exact ⟨rfl, by decide⟩
      · exact ⟨rfl, by decide⟩
  have hfraction := scanFraction_append h.fraction hedge
  have hpoint : ∀ p, (fraction ++ (exponent ++ rest)).head? = some p → isDigit p = false := by
    intro p hp
    rcases h.fraction with rfl | ⟨_, rfl, -⟩
    · exact (hedge p hp).1
    · obtain rfl : ofChar '.' = p := Option.some.inj hp
      rfl
  have hinteger := scanInteger_append hsign hdigits hpoint
  rw [List.append_assoc, List.append_assoc, readNumber, hinteger]
  dsimp only
  rw [hfraction]
  dsimp only
  rw [hexponent]

theorem isNumber_intText (n : ℤ) : IsNumber (intText n) [] [] := by
  refine ⟨?_, Or.inl rfl, Or.inl rfl⟩
  cases n with
  | ofNat n => exact ⟨[], natText n, rfl, Or.inl rfl, isWhole_natText n⟩
  | negSucc n => exact ⟨[ofChar '-'], natText (n + 1), rfl, Or.inr rfl, isWhole_natText (n + 1)⟩

theorem readNumber_int (format : FloatFormat F) (n : ℤ) (hrest : Ends rest) :
    readNumber format (intText n ++ rest) = some (.int n, rest) := by
  have hread := readNumber_append format (isNumber_intText n) hrest
  rwa [if_pos ⟨rfl, rfl⟩, intValue_intText, List.append_nil, List.append_nil] at hread

theorem readNumber_finite (format : FloatFormat F) (x : F) (hrest : Ends rest) :
    readNumber format (format.repr x ++ rest) = some (.float (.finite x), rest) := by
  obtain ⟨whole, fraction, exponent, htext, hnumber, hfloat⟩ := format.number x
  have hread := readNumber_append format hnumber hrest
  rwa [if_neg hfloat, ← htext, format.parse_repr] at hread

/-- A number begins with a digit, or with a minus and a digit. -/
theorem IsNumber.front (h : IsNumber whole fraction exponent) :
    ∃ p tail, whole ++ fraction ++ exponent = p :: tail ∧
      (isDigit p = true ∨ p = ofChar '-' ∧ ∃ q tail', tail = q :: tail' ∧ isDigit q = true) := by
  obtain ⟨sign, digits, rfl, hsign, hdigits⟩ := h.whole
  cases digits with
  | nil => exact absurd rfl hdigits.ne_nil
  | cons p digits =>
    have hp := hdigits.isDigit p List.mem_cons_self
    rcases hsign with rfl | rfl
    · exact ⟨p, _, rfl, Or.inl hp⟩
    · exact ⟨ofChar '-', _, rfl, Or.inr ⟨rfl, p, _, rfl, hp⟩⟩

end Numbers

section Strings

def quote : CodePoint := ofChar '"'

def backslash : CodePoint := ofChar '\\'

/-- The characters that are written as a backslash and one more character. -/
def escapes : List (CodePoint × CodePoint) :=
  [(quote, quote), (backslash, backslash), (ofChar '\x08', ofChar 'b'),
    (ofChar '\x0c', ofChar 'f'), (ofChar '\n', ofChar 'n'), (ofChar '\r', ofChar 'r'),
    (ofChar '\t', ofChar 't')]

def hexDigit (n : ℕ) : CodePoint := ofChar (Nat.digitChar n)

def escapePoint (p : CodePoint) : PyText :=
  match escapes.lookup p with
  | some q => [backslash, q]
  | none =>
    if p.val < 0x20 then
      [backslash, ofChar 'u', ofChar '0', ofChar '0', hexDigit (p.val / 16), hexDigit (p.val % 16)]
    else [p]

/-- A string as it is written with `ensure_ascii=False`. -/
def quoted (s : PyText) : PyText := quote :: (s.flatMap escapePoint ++ [quote])

def hexValue (p : CodePoint) : Option ℕ :=
  if 0x30 ≤ p.val ∧ p.val ≤ 0x39 then some (p.val - 0x30)
  else if 0x41 ≤ p.val ∧ p.val ≤ 0x46 then some (p.val - 0x37)
  else if 0x61 ≤ p.val ∧ p.val ≤ 0x66 then some (p.val - 0x57)
  else none

/-- The number of the four hexadecimal digits at the front of a text. -/
def hexQuad : PyText → Option ℕ
  | a :: b :: c :: d :: _ => do
    let a ← hexValue a
    let b ← hexValue b
    let c ← hexValue c
    let d ← hexValue d
    some (((a * 16 + b) * 16 + c) * 16 + d)
  | _ => none

def isHighSurrogate (n : ℕ) : Bool := 0xd800 ≤ n && n ≤ 0xdbff

def isLowSurrogate (n : ℕ) : Bool := 0xdc00 ≤ n && n ≤ 0xdfff

/-- `chr(n)`; what escapes and pairs of surrogates stand for is always in range. -/
def chr (n : ℕ) : CodePoint := if h : n < 0x110000 then ⟨n, h⟩ else ofChar '\ufffd'

theorem chr_val (p : CodePoint) : chr p.val = p := dif_pos p.isLt

def joinSurrogates (high low : ℕ) : CodePoint :=
  chr (0x10000 + (high - 0xd800) * 0x400 + (low - 0xdc00))

/-- An escaped low surrogate at the front of a text. -/
def lowSurrogate : PyText → Option ℕ
  | p :: q :: rest =>
    if p = backslash ∧ q = ofChar 'u' then (hexQuad rest).filter isLowSurrogate else none
  | _ => none

/-- The character of an escape, and how much of the text behind the backslash it takes. -/
def escapeAt : PyText → Option (CodePoint × ℕ)
  | [] => none
  | q :: rest =>
    if q = ofChar 'u' then
      match hexQuad rest with
      | none => none
      | some n =>
        if isHighSurrogate n then
          match lowSurrogate (rest.drop 4) with
          | some low => some (joinSurrogates n low, 11)
          | none => some (chr n, 5)
        else some (chr n, 5)
    else
      (((ofChar '/', ofChar '/') :: escapes.map Prod.swap).lookup q).map fun p => (p, 1)

/-- The string behind an opening quote. The count is of the characters that the last escape
has taken already. -/
def readString : ℕ → PyText → Option (PyText × PyText)
  | _, [] => none
  | taken + 1, _ :: rest => readString taken rest
  | 0, p :: rest =>
    if p = quote then some ([], rest)
    else if p = backslash then
      match escapeAt rest with
      | none => none
      | some (q, taken) => (readString taken rest).map fun (s, rest) => (q :: s, rest)
    else if p.val < 0x20 then none
    else (readString 0 rest).map fun (s, rest) => (p :: s, rest)

theorem escapes_inverse : escapes.all (fun item =>
    escapeAt [item.2] == some (item.1, 1) && item.2 != ofChar 'u') = true := by
  decide +kernel

theorem escapeAt_of_lookup {p q : CodePoint} (h : escapes.lookup p = some q) (rest : PyText) :
    escapeAt (q :: rest) = some (p, 1) := by
  obtain ⟨front, back, heq, -⟩ := List.lookup_eq_some_iff.mp h
  have hitem := List.all_eq_true.mp escapes_inverse (p, q) (by rw [heq]; simp)
  simp only [Bool.and_eq_true, beq_iff_eq, bne_iff_ne] at hitem
  rw [escapeAt, if_neg hitem.2] at hitem ⊢
  exact hitem.1

/-- A control character has two hexadecimal digits. -/
theorem hexQuad_control {p : CodePoint} (h : p.val < 0x20) (rest : PyText) :
    hexQuad (ofChar '0' :: ofChar '0' :: hexDigit (p.val / 16) :: hexDigit (p.val % 16) :: rest) =
      some p.val := by
  have hall : (List.range 0x20).all (fun n => hexQuad [ofChar '0', ofChar '0', hexDigit (n / 16),
      hexDigit (n % 16)] == some n) = true := by decide +kernel
  have hn := List.all_eq_true.mp hall p.val (List.mem_range.mpr h)
  exact beq_iff_eq.mp hn

theorem readString_escapePoint (p : CodePoint) (tail : PyText) :
    readString 0 (escapePoint p ++ tail) =
      (readString 0 tail).map fun (s, rest) => (p :: s, rest) := by
  unfold escapePoint
  cases hlookup : escapes.lookup p with
  | some q =>
    change readString 0 (backslash :: q :: tail) = _
    rw [readString, if_neg (by decide), if_pos rfl, escapeAt_of_lookup hlookup]
    rfl
  | none =>
    dsimp only
    by_cases hcontrol : p.val < 0x20
    · rw [if_pos hcontrol]
      change readString 0 (backslash :: ofChar 'u' :: ofChar '0' :: ofChar '0' ::
        hexDigit (p.val / 16) :: hexDigit (p.val % 16) :: tail) = _
      have hlow : isHighSurrogate p.val = false := by
        unfold isHighSurrogate
        rw [Bool.and_eq_false_iff]
        exact Or.inl (decide_eq_false (by omega))
      rw [readString, if_neg (by decide), if_pos rfl, escapeAt, if_pos rfl,
        hexQuad_control hcontrol]
      dsimp only
      rw [hlow, if_neg Bool.false_ne_true, chr_val]
      rfl
    · have hplain : p ≠ quote ∧ p ≠ backslash := by
        rw [List.lookup_eq_none_iff] at hlookup
        constructor
        · rintro rfl
          exact absurd (hlookup _ List.mem_cons_self) (by decide)
        · rintro rfl
          exact absurd (hlookup _ (List.mem_cons_of_mem _ List.mem_cons_self)) (by decide)
      rw [if_neg hcontrol, List.singleton_append, readString, if_neg hplain.1, if_neg hplain.2,
        if_neg hcontrol]

/-- A string is read as it was written. -/
theorem readString_append (s rest : PyText) :
    readString 0 (s.flatMap escapePoint ++ quote :: rest) = some (s, rest) := by
  induction s with
  | nil => rfl
  | cons p s ih => rw [List.flatMap_cons, List.append_assoc, readString_escapePoint, ih]; rfl

end Strings

section Scalars

variable {F : Type} {rest : PyText}

/-- The names of the scalars that are no strings and no numbers. -/
def constants : List (String × Scalar F) :=
  [("null", .null), ("true", .bool true), ("false", .bool false), ("NaN", .float .nan),
    ("Infinity", .float .infinity), ("-Infinity", .float .negInfinity)]

def readConstant (text : PyText) : Option (Scalar F × PyText) :=
  constants.findSome? fun (name, s) =>
    if (ofString name).isPrefixOf text then some (s, text.drop name.length) else none

def readScalar (format : FloatFormat F) : PyText → Option (Scalar F × PyText)
  | [] => none
  | p :: rest =>
    if p = quote then (readString 0 rest).map fun (s, rest) => (.str s, rest)
    else
      match readConstant (p :: rest) with
      | some found => some found
      | none => readNumber format (p :: rest)

def scalarText (format : FloatFormat F) : Scalar F → PyText
  | .null => ofString "null"
  | .bool true => ofString "true"
  | .bool false => ofString "false"
  | .int n => intText n
  | .float (.finite x) => format.repr x
  | .float .nan => ofString "NaN"
  | .float .infinity => ofString "Infinity"
  | .float .negInfinity => ofString "-Infinity"
  | .str s => quoted s

/-- No name of a constant begins with a digit, or with a minus and a digit. -/
theorem readConstant_eq_none {p : CodePoint} {tail : PyText}
    (h : isDigit p = true ∨ p = ofChar '-' ∧ ∃ q tail', tail = q :: tail' ∧ isDigit q = true) :
    (readConstant (p :: tail) : Option (Scalar F × PyText)) = none := by
  have hhead : ∀ c : Char, isDigit (ofChar c) = false → isDigit p = true →
      (ofChar c == p) = false := by
    intro c hc hp
    rw [beq_eq_false_iff_ne]
    rintro rfl
    rw [hc] at hp
    cases hp
  unfold readConstant
  rw [List.findSome?_eq_none_iff]
  rintro ⟨name, s⟩ hmem
  refine if_neg ?_
  rw [Bool.not_eq_true]
  unfold constants at hmem
  rcases h with hp | ⟨rfl, q, tail', rfl, hq⟩
  · simp only [List.mem_cons, Prod.mk.injEq, List.not_mem_nil, or_false] at hmem
    rcases hmem with ⟨rfl, -⟩ | ⟨rfl, -⟩ | ⟨rfl, -⟩ | ⟨rfl, -⟩ | ⟨rfl, -⟩ | ⟨rfl, -⟩
    · exact Bool.and_eq_false_iff.mpr (Or.inl (hhead 'n' rfl hp))
    · exact Bool.and_eq_false_iff.mpr (Or.inl (hhead 't' rfl hp))
    · exact Bool.and_eq_false_iff.mpr (Or.inl (hhead 'f' rfl hp))
    · exact Bool.and_eq_false_iff.mpr (Or.inl (hhead 'N' rfl hp))
    · exact Bool.and_eq_false_iff.mpr (Or.inl (hhead 'I' rfl hp))
    · exact Bool.and_eq_false_iff.mpr (Or.inl (hhead '-' rfl hp))
  · have hnext : (ofChar 'I' == q) = false := by
      rw [beq_eq_false_iff_ne]
      rintro rfl
      cases hq
    simp only [List.mem_cons, Prod.mk.injEq, List.not_mem_nil, or_false] at hmem
    rcases hmem with ⟨rfl, -⟩ | ⟨rfl, -⟩ | ⟨rfl, -⟩ | ⟨rfl, -⟩ | ⟨rfl, -⟩ | ⟨rfl, -⟩
    · rfl
    · rfl
    · rfl
    · rfl
    · rfl
    · have hname : ofString "-Infinity" = ofChar '-' :: ofChar 'I' :: ofString "nfinity" := rfl
      rw [hname, List.isPrefixOf_cons₂, List.isPrefixOf_cons₂, hnext, Bool.false_and,
        Bool.and_false]

theorem readScalar_number (format : FloatFormat F) {whole fraction exponent : PyText}
    (h : IsNumber whole fraction exponent) (rest : PyText) :
    readScalar format (whole ++ fraction ++ exponent ++ rest) =
      readNumber format (whole ++ fraction ++ exponent ++ rest) := by
  obtain ⟨p, tail, htext, hfront⟩ := h.front
  have hquote : p ≠ quote := by
    rintro rfl
    rcases hfront with hp | ⟨hp, -⟩
    · cases hp
    · exact absurd hp (by decide)
  have hnone : (readConstant (p :: (tail ++ rest)) : Option (Scalar F × PyText)) = none := by
    refine readConstant_eq_none ?_
    rcases hfront with hp | ⟨hp, q, tail', rfl, hq⟩
    · exact Or.inl hp
    · exact Or.inr ⟨hp, q, tail' ++ rest, rfl, hq⟩
  rw [htext, List.cons_append, readScalar, if_neg hquote, hnone]

/-- A scalar is read as it was written. -/
theorem readScalar_append (format : FloatFormat F) (s : Scalar F) (hrest : Ends rest) :
    readScalar format (scalarText format s ++ rest) = some (s, rest) := by
  cases s with
  | null => rfl
  | bool b => cases b <;> rfl
  | int n =>
    have hscalar := readScalar_number format (isNumber_intText n) rest
    rw [List.append_nil, List.append_nil] at hscalar
    exact hscalar.trans (readNumber_int format n hrest)
  | float x =>
    cases x with
    | finite x =>
      obtain ⟨whole, fraction, exponent, htext, hnumber, -⟩ := format.number x
      have hscalar := readScalar_number format hnumber rest
      rw [← htext] at hscalar
      exact hscalar.trans (readNumber_finite format x hrest)
    | nan => rfl
    | infinity => rfl
    | negInfinity => rfl
  | str s =>
    rw [scalarText, quoted, List.cons_append, readScalar, if_pos rfl, List.append_assoc,
      List.singleton_append, readString_append]
    rfl

theorem length_scanWhole {text digits : PyText} (h : scanWhole text = some (digits, rest)) :
    rest.length < text.length := by
  cases text with
  | nil => cases h
  | cons p tail =>
    rw [scanWhole] at h
    split at h
    · obtain ⟨-, rfl⟩ := Prod.mk.inj (Option.some.inj h)
      simp
    · split at h
      · rename_i hp
        obtain ⟨-, rfl⟩ := Prod.mk.inj (Option.some.inj h)
        rw [List.dropWhile_cons_of_pos hp]
        have hle := (List.dropWhile_sublist isDigit (l := tail)).length_le
        rw [List.length_cons]
        omega
      · cases h

theorem length_scanInteger {text digits : PyText} (h : scanInteger text = some (digits, rest)) :
    rest.length < text.length := by
  cases text with
  | nil => cases h
  | cons p tail =>
    rw [scanInteger] at h
    split at h
    · obtain ⟨⟨digits', rest'⟩, hwhole, heq⟩ := Option.map_eq_some_iff.mp h
      obtain ⟨-, rfl⟩ := Prod.mk.inj heq
      have hlt := length_scanWhole hwhole
      rw [List.length_cons]
      omega
    · exact length_scanWhole h

theorem length_scanFraction (text : PyText) : (scanFraction text).2.length ≤ text.length := by
  cases text with
  | nil => exact le_rfl
  | cons p tail =>
    rw [scanFraction]
    split
    · have hle := (List.dropWhile_sublist isDigit (l := tail)).length_le
      show (tail.dropWhile isDigit).length ≤ tail.length + 1
      omega
    · exact le_rfl

theorem length_scanExponent (text : PyText) : (scanExponent text).2.length ≤ text.length := by
  cases text with
  | nil => exact le_rfl
  | cons p tail =>
    rw [scanExponent]
    split
    · have hle := (List.dropWhile_sublist isDigit
        (l := tail.drop ((tail.take 1).filter isSign).length)).length_le
      rw [List.length_drop] at hle
      show ((tail.drop ((tail.take 1).filter isSign).length).dropWhile isDigit).length ≤
        tail.length + 1
      omega
    · exact le_rfl

theorem length_readString {taken : ℕ} {text s : PyText}
    (h : readString taken text = some (s, rest)) : rest.length < text.length := by
  induction text generalizing taken s with
  | nil =>
    unfold readString at h
    cases h
  | cons p tail ih =>
    rw [List.length_cons]
    have hmap : ∀ {n : ℕ} {q : CodePoint}, ((readString n tail).map fun (s, rest) =>
        (q :: s, rest)) = some (s, rest) → rest.length < tail.length + 1 := by
      intro n q hread
      obtain ⟨⟨s', rest'⟩, htail, heq⟩ := Option.map_eq_some_iff.mp hread
      obtain ⟨-, rfl⟩ := Prod.mk.inj heq
      have hlt := ih htail
      omega
    cases taken with
    | succ n =>
      have hlt := ih (show readString n tail = some (s, rest) from h)
      omega
    | zero =>
      rw [readString] at h
      split at h
      · obtain ⟨-, rfl⟩ := Prod.mk.inj (Option.some.inj h)
        omega
      · split at h
        · split at h
          · cases h
          · exact hmap h
        · split at h
          · cases h
          · exact hmap h

theorem length_readNumber {format : FloatFormat F} {text : PyText} {s : Scalar F}
    (h : readNumber format text = some (s, rest)) : rest.length < text.length := by
  unfold readNumber at h
  cases hinteger : scanInteger text with
  | none =>
    rw [hinteger] at h
    cases h
  | some found =>
    obtain ⟨whole, tail⟩ := found
    rw [hinteger] at h
    have hlt := length_scanInteger hinteger
    have hfraction := length_scanFraction tail
    have hexponent := length_scanExponent (scanFraction tail).2
    have hrest : rest = (scanExponent (scanFraction tail).2).2 := by
      dsimp only at h
      split at h
      · exact (Prod.mk.inj (Option.some.inj h)).2.symm
      · exact (Prod.mk.inj (Option.some.inj h)).2.symm
    rw [hrest]
    omega

/-- Reading a scalar takes some of the text. -/
theorem length_readScalar {format : FloatFormat F} {text : PyText} {s : Scalar F}
    (h : readScalar format text = some (s, rest)) : rest.length < text.length := by
  cases text with
  | nil => cases h
  | cons p tail =>
    rw [readScalar] at h
    split at h
    · obtain ⟨⟨s', rest'⟩, hstring, heq⟩ := Option.map_eq_some_iff.mp h
      obtain ⟨-, rfl⟩ := Prod.mk.inj heq
      have hlt := length_readString hstring
      rw [List.length_cons]
      omega
    · split at h
      · rename_i found hconstant
        obtain rfl := Option.some.inj h
        unfold readConstant at hconstant
        obtain ⟨⟨name, t⟩, hmem, hname⟩ := List.exists_of_findSome?_eq_some hconstant
        have hpos : 0 < name.length := by
          unfold constants at hmem
          simp only [List.mem_cons, Prod.mk.injEq, List.not_mem_nil, or_false] at hmem
          rcases hmem with ⟨rfl, -⟩ | ⟨rfl, -⟩ | ⟨rfl, -⟩ | ⟨rfl, -⟩ | ⟨rfl, -⟩ | ⟨rfl, -⟩ <;>
          decide
        dsimp only at hname
        split at hname
        · obtain ⟨-, rfl⟩ := Prod.mk.inj (Option.some.inj hname)
          rw [List.length_drop, List.length_cons]
          omega
        · cases hname
      · exact length_readNumber h

end Scalars

end ConfigBackup.JsonText
