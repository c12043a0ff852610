import ConfigBackup.CodePoints

/-!
The preview of a stored configuration. The content is checked, decoded and redacted as a whole,
and only then cut to the limit of the preview, at the last line break that fits.
-/

namespace ConfigBackup.RevisionDisplay

open CodePoints

section Program

variable {α : Type}

/-- What a driver registry or a redaction raises. -/
inductive DriverFailure
  | unicode | registry | other
deriving DecidableEq, Repr

abbrev DriverRegistry := String → Except DriverFailure (PyText → Except DriverFailure PyText)

/-- A `RevisionDisplayError`, or the `UnicodeEncodeError` of a text with a surrogate. -/
inductive DisplayFailure
  | revisionDisplay (message : String)
  | unicodeEncode
deriving DecidableEq, Repr

structure DisplayLine where
  number : ℕ
  text : PyText
deriving DecidableEq, Repr

structure DisplayContent (α : Type) where
  artifact : Option α
  text : PyText
  lines : List DisplayLine
  size : ℕ
  displayedSize : ℕ
  truncated : Bool
  rawHash : String
deriving DecidableEq, Repr

/-- The redaction of a stored content. -/
def redactStored (drivers : DriverRegistry) (driverId : String) (content : List UInt8) :
    Except DriverFailure PyText :=
  match decode content with
  | none => .error .unicode
  | some text => do
    let redact ← drivers driverId
    redact text

def failureMessage : DriverFailure → String
  | .unicode => "Stored configuration is not valid UTF-8 text."
  | .registry => "The revision driver is unavailable for safe display redaction."
  | .other => "Configuration display redaction failed safely."

/-- `text.rfind(p)`. -/
def rfind (p : CodePoint) : PyText → ℤ
  | [] => -1
  | q :: rest => if 0 ≤ rfind p rest then rfind p rest + 1 else if q = p then 0 else -1

/-- The position of the last line feed or carriage return. -/
def lastNewline (text : PyText) : ℤ := max (rfind (ofChar '\n') text) (rfind (ofChar '\r') text)

/-- The part of an encoded redaction that is shown. -/
def previewText (redactedBytes : List UInt8) (maxBytes : ℕ) : PyText :=
  let previewText := decodeIgnore (redactedBytes.take maxBytes)
  let newline := lastNewline previewText
  if 0 < newline then previewText.take newline.toNat else previewText

def displayLines (text : PyText) : List DisplayLine :=
  (splitlines text).zipIdx.map fun (line, index) => ⟨index + 1, line⟩

/-- `prepare_display_content`. -/
def prepareDisplayContent (sha256Hex : List UInt8 → String) (drivers : DriverRegistry)
    (content : List UInt8) (artifact : Option α) (driverId : String) (expectedSize : ℕ)
    (expectedHash : String) (maxBytes : ℕ) (allowTruncate : Bool) :
    Except DisplayFailure (DisplayContent α) :=
  if content.length ≠ expectedSize ∨ sha256Hex content ≠ expectedHash then
    .error (.revisionDisplay "Stored configuration failed its integrity check.")
  else if maxBytes < content.length ∧ allowTruncate = false then
    .error (.revisionDisplay "Stored configuration is too large for the browser preview.")
  else
    match redactStored drivers driverId content with
    | .error e => .error (.revisionDisplay (failureMessage e))
    | .ok redacted =>
      match encode redacted with
      | none => .error .unicodeEncode
      | some redactedBytes =>
        if maxBytes < redactedBytes.length then
          let text := previewText redactedBytes maxBytes
          match encode text with
          | none => .error .unicodeEncode
          | some shown =>
            .ok ⟨artifact, text, displayLines text, content.length, shown.length, true, expectedHash⟩
        else
          .ok ⟨artifact, redacted, displayLines redacted, content.length, redactedBytes.length, false,
            expectedHash⟩

end Program

section Newlines

def isNewline (p : CodePoint) : Bool := p == ofChar '\n' || p == ofChar '\r'

theorem neg_one_le_rfind (p : CodePoint) (text : PyText) : -1 ≤ rfind p text := by
  cases text with
  | nil => exact le_rfl
  | cons q rest =>
    unfold rfind
    split
    · omega
    · split <;> omega

theorem lastNewline_cons (p : CodePoint) (text : PyText) :
    lastNewline (p :: text) =
      if 0 ≤ lastNewline text then lastNewline text + 1 else if isNewline p then 0 else -1 := by
  have hfeed := neg_one_le_rfind (ofChar '\n') text
  have hreturn := neg_one_le_rfind (ofChar '\r') text
  have hiff : isNewline p = true ↔ p = ofChar '\n' ∨ p = ofChar '\r' := by
    simp [isNewline]
  unfold lastNewline
  rw [rfind, rfind]
  by_cases hp : isNewline p = true
  · rw [if_pos hp]
    rcases hiff.mp hp with rfl | rfl
    · rw [if_pos (Eq.refl (ofChar '\n'))]
      split_ifs <;> omega
    · rw [if_pos (Eq.refl (ofChar '\r'))]
      split_ifs <;> omega
  · have hne := hp
    rw [hiff, not_or] at hne
    rw [if_neg hp, if_neg hne.1, if_neg hne.2]
    split_ifs <;> omega

/-- The last line break of a text, if it has one. -/
theorem lastNewline_cases (text : PyText) :
    ((∀ p ∈ text, isNewline p = false) ∧ lastNewline text = -1) ∨
      ∃ front p back, text = front ++ p :: back ∧ isNewline p = true ∧
        (∀ q ∈ back, isNewline q = false) ∧ lastNewline text = front.length := by
  induction text with
  | nil => exact Or.inl ⟨nofun, rfl⟩
  | cons q text ih =>
    rw [lastNewline_cons]
    rcases ih with ⟨hnone, hindex⟩ | ⟨front, p, back, rfl, hp, hback, hindex⟩
    · rw [hindex, if_neg (by omega)]
      by_cases hq : isNewline q = true
      · exact Or.inr ⟨[], q, text, rfl, hq, hnone, by rw [if_pos hq]; rfl⟩
      · rw [if_neg hq]
        refine Or.inl ⟨fun p hp => ?_, rfl⟩
        rcases List.mem_cons.mp hp with rfl | hp
        · exact Bool.not_eq_true _ ▸ hq
        · exact hnone p hp
    · rw [hindex, if_pos (Int.natCast_nonneg _)]
      refine Or.inr ⟨q :: front, p, back, rfl, hp, hback, ?_⟩
      rw [List.length_cons]
      rfl

theorem encode_newline {p : CodePoint} (h : isNewline p = true) :
    ∃ bytes, encode [p] = some bytes ∧ bytes.length = 1 := by
  have hp : p = ofChar '\n' ∨ p = ofChar '\r' := by simpa [isNewline] using h
  rcases hp with rfl | rfl
  · exact ⟨utf8Bytes ['\n'], encode_ofChar ['\n'], by decide⟩
  · exact ⟨utf8Bytes ['\r'], encode_ofChar ['\r'], by decide⟩

end Newlines

section Cuts

variable {redacted front rest : PyText} {redactedBytes : List UInt8} {maxBytes limit : ℕ}

/-- The part of a text in front of its first line break. -/
def firstLine (text : PyText) : PyText := text.takeWhile (fun p => !isNewline p)

/-- The encoding of a text exceeds a limit. -/
def TooLong (text : PyText) (limit : ℕ) : Prop :=
  ∃ bytes, encode text = some bytes ∧ limit < bytes.length

/-- A cut at a line break, unless the first line is too long for one. -/
def CutCleanly (redacted : PyText) (maxBytes : ℕ) (shown : PyText) : Prop :=
  (∃ p rest, redacted = shown ++ p :: rest ∧ isNewline p = true) ∨
    TooLong (firstLine redacted) maxBytes

/-- An empty first line, and a second one that does not fit. -/
def BlankStart (redacted : PyText) (maxBytes : ℕ) : Prop :=
  ∃ p rest, redacted = p :: rest ∧ isNewline p = true ∧ TooLong (firstLine rest) (maxBytes - 1)

theorem tooLong_of_front (h : TooLong front limit) (hahead : front <+: rest)
    (hencode : ∃ bytes, encode rest = some bytes) : TooLong rest limit := by
  obtain ⟨tail, rfl⟩ := hahead
  obtain ⟨bytes, hbytes⟩ := hencode
  obtain ⟨first, second, hfirst, -, rfl⟩ := encode_append_eq_some hbytes
  obtain ⟨other, hother, hlong⟩ := h
  rw [hfirst] at hother
  obtain rfl := Option.some.inj hother
  refine ⟨_, hbytes, ?_⟩
  rw [List.length_append]
  omega

theorem firstLine_append (h : ∀ p ∈ front, isNewline p = false) :
    firstLine (front ++ rest) = front ++ firstLine rest := by
  unfold firstLine
  exact List.takeWhile_append_of_pos fun p hp => by rw [h p hp]; rfl

theorem firstLine_cons_newline {p : CodePoint} (h : isNewline p = true) :
    firstLine (p :: rest) = [] := by
  unfold firstLine
  exact List.takeWhile_cons_of_neg (by simp [h])

theorem firstLine_cons_plain {p : CodePoint} (h : isNewline p = false) :
    firstLine (p :: rest) = p :: firstLine rest := by
  unfold firstLine
  exact List.takeWhile_cons_of_pos (by simp [h])

theorem firstLine_of_newline {p : CodePoint} (h : isNewline p = true) :
    firstLine (front ++ p :: rest) <+: front := by
  induction front with
  | nil =>
    have hnil : firstLine (p :: rest) = [] := firstLine_cons_newline h
    simp [hnil]
  | cons q front ih =>
    rw [List.cons_append]
    by_cases hq : isNewline q = true
    · rw [firstLine_cons_newline hq]
      exact List.nil_prefix
    · rw [firstLine_cons_plain (Bool.not_eq_true _ ▸ hq)]
      exact (List.prefix_cons_inj q).mpr ih

theorem not_tooLong_nil : ¬ TooLong [] limit := by
  rintro ⟨bytes, hbytes, hlong⟩
  obtain rfl : [] = bytes := Option.some.inj hbytes
  exact Nat.not_lt_zero _ hlong

section Previews

variable {preview tail back : PyText} {p r : CodePoint} {shown next : List UInt8}

theorem firstLine_front (text : PyText) : firstLine text <+: text := List.takeWhile_prefix _

/-- A preview in the first line. -/
theorem cut_in_first_line (hmax : 0 < maxBytes)
    (hencode : encode (preview ++ r :: tail) = some redactedBytes)
    (hshown : encode preview = some shown) (hr : encode [r] = some next)
    (hover : maxBytes < shown.length + next.length) (hplain : ∀ q ∈ preview, isNewline q = false) :
    CutCleanly (preview ++ r :: tail) maxBytes preview ∧
      ¬ BlankStart (preview ++ r :: tail) maxBytes := by
  constructor
  · by_cases hbreak : isNewline r = true
    · exact Or.inl ⟨r, tail, rfl, hbreak⟩
    · rw [Bool.not_eq_true] at hbreak
      have hlong : TooLong (preview ++ [r]) maxBytes :=
        ⟨_, encode_append hshown hr, by rw [List.length_append]; omega⟩
      refine Or.inr (tooLong_of_front hlong ?_ ?_)
      · rw [firstLine_append hplain, firstLine_cons_plain hbreak]
        exact ⟨firstLine tail, by simp⟩
      · obtain ⟨others, hothers⟩ := firstLine_front (preview ++ r :: tail)
        rw [← hothers] at hencode
        obtain ⟨first, _, hfirst, -, -⟩ := encode_append_eq_some hencode
        exact ⟨first, hfirst⟩
  · rintro ⟨q, others, heq, hq, -⟩
    cases preview with
    | nil =>
      obtain ⟨rfl, rfl⟩ := List.cons.inj heq
      obtain ⟨one, hone, hlength⟩ := encode_newline hq
      rw [hr] at hone
      obtain rfl := Option.some.inj hone
      obtain rfl : [] = shown := Option.some.inj hshown
      rw [List.length_nil] at hover
      omega
    | cons first preview =>
      obtain ⟨rfl, -⟩ := List.cons.inj heq
      rw [hplain first List.mem_cons_self] at hq
      cases hq

/-- A preview that begins with a line break and has no other. -/
theorem cut_in_second_line (hencode : encode (p :: back ++ r :: tail) = some redactedBytes)
    (hshown : encode (p :: back) = some shown) (hle : shown.length ≤ maxBytes)
    (hr : encode [r] = some next) (hover : maxBytes < shown.length + next.length)
    (hp : isNewline p = true) (hback : ∀ q ∈ back, isNewline q = false) :
    CutCleanly (p :: back ++ r :: tail) maxBytes (p :: back) ↔
      ¬ BlankStart (p :: back ++ r :: tail) maxBytes := by
  obtain ⟨one, hone, hlength⟩ := encode_newline hp
  obtain ⟨first, second, hfirst, hsecond, rfl⟩ := @encode_append_eq_some [p] _ _ hshown
  rw [hone] at hfirst
  obtain rfl := Option.some.inj hfirst
  rw [List.length_append, hlength] at hle hover
  by_cases hbreak : isNewline r = true
  · refine iff_of_true (Or.inl ⟨r, tail, rfl, hbreak⟩) ?_
    rintro ⟨q, others, heq, -, bytes, hbytes, hlong⟩
    obtain ⟨rfl, rfl⟩ := List.cons.inj heq
    change encode (firstLine (back ++ r :: tail)) = some bytes at hbytes
    rw [firstLine_append hback, firstLine_cons_newline hbreak, List.append_nil, hsecond] at hbytes
    obtain rfl := Option.some.inj hbytes
    omega
  · rw [Bool.not_eq_true] at hbreak
    refine iff_of_false ?_ (not_not.mpr ⟨p, back ++ r :: tail, rfl, hp, ?_⟩)
    · rintro (⟨q, others, heq, hq⟩ | hlong)
      · have hrest := List.append_cancel_left heq
        rw [(List.cons.inj hrest).1, hq] at hbreak
        cases hbreak
      · rw [List.cons_append, firstLine_cons_newline hp] at hlong
        exact not_tooLong_nil hlong
    · have hlong : TooLong (back ++ [r]) (maxBytes - 1) :=
        ⟨_, encode_append hsecond hr, by rw [List.length_append]; omega⟩
      refine tooLong_of_front hlong ?_ ?_
      · rw [firstLine_append hback, firstLine_cons_plain hbreak]
        exact ⟨firstLine tail, by simp⟩
      · obtain ⟨others, hothers⟩ := firstLine_front (back ++ r :: tail)
        rw [List.cons_append, ← hothers] at hencode
        obtain ⟨_, later, _, hlater, -⟩ := @encode_append_eq_some [p] _ _ hencode
        obtain ⟨line, _, hline, -, -⟩ := encode_append_eq_some hlater
        exact ⟨line, hline⟩

/-- A preview of a text that is cut at a later line break. -/
theorem cut_at_newline (hfront : front ≠ []) (hshown : encode front = some shown)
    (hle : shown.length ≤ maxBytes) (hp : isNewline p = true) :
    CutCleanly (front ++ p :: rest) maxBytes front ∧ ¬ BlankStart (front ++ p :: rest) maxBytes := by
  refine ⟨Or.inl ⟨p, rest, rfl, hp⟩, ?_⟩
  rintro ⟨q, others, heq, hq, hlong⟩
  cases front with
  | nil => exact hfront rfl
  | cons first front =>
    obtain ⟨rfl, rfl⟩ := List.cons.inj heq
    obtain ⟨one, second, hone, hsecond, rfl⟩ := @encode_append_eq_some [first] _ _ hshown
    obtain ⟨bytes, hbytes, hlength⟩ := encode_newline hq
    rw [hone] at hbytes
    obtain rfl := Option.some.inj hbytes
    -- the second line ends at the cut at the latest
    obtain ⟨other, hother, hover⟩ := tooLong_of_front hlong (firstLine_of_newline hp)
      ⟨second, hsecond⟩
    rw [hsecond] at hother
    obtain rfl := Option.some.inj hother
    rw [List.length_append, hlength] at hle
    omega

/-- The preview is a prefix that fits. It is cut cleanly unless the text begins with an empty
line and the second line does not fit. -/
theorem previewText_spec (hmax : 0 < maxBytes) (hencode : encode redacted = some redactedBytes)
    (hlong : maxBytes < redactedBytes.length) :
    ∃ shown, encode (previewText redactedBytes maxBytes) = some shown ∧
      shown.length ≤ maxBytes ∧ previewText redactedBytes maxBytes <+: redacted ∧
      (CutCleanly redacted maxBytes (previewText redactedBytes maxBytes) ↔
        ¬ BlankStart redacted maxBytes) := by
  obtain ⟨rest, shown, hredacted, hshown, hle, hnext⟩ := exists_preview hencode maxBytes
  unfold previewText
  dsimp only
  generalize decodeIgnore (redactedBytes.take maxBytes) = preview at hredacted hshown ⊢
  subst hredacted
  cases rest with
  | nil =>
    rw [List.append_nil, hshown] at hencode
    obtain rfl := Option.some.inj hencode
    omega
  | cons r tail =>
    obtain ⟨next, hr, hover⟩ := hnext r tail rfl
    rcases lastNewline_cases preview with ⟨hplain, hindex⟩ | ⟨front, p, back, rfl, hp, hback, hindex⟩
    · rw [hindex, if_neg (by omega)]
      have hcut := cut_in_first_line hmax hencode hshown hr hover hplain
      exact ⟨shown, hshown, hle, List.prefix_append _ _, iff_of_true hcut.1 hcut.2⟩
    · rw [hindex]
      by_cases hfront : front = []
      · subst hfront
        rw [if_neg (by simp)]
        exact ⟨shown, hshown, hle, List.prefix_append _ _,
          cut_in_second_line hencode hshown hle hr hover hp hback⟩
      · have hpos : (0 : ℤ) < front.length :=
          Int.natCast_pos.mpr (List.length_pos_iff.mpr hfront)
        obtain ⟨first, second, hfirst, -, rfl⟩ := encode_append_eq_some hshown
        rw [List.length_append] at hle
        rw [if_pos hpos, Int.toNat_natCast, List.take_left, List.append_assoc]
        have hcut := @cut_at_newline front (back ++ r :: tail) maxBytes p first hfront hfirst
          (by omega) hp
        exact ⟨first, hfirst, by omega, List.prefix_append _ _, iff_of_true hcut.1 hcut.2⟩

end Previews

end Cuts

section Previewing

variable {α : Type} {sha256Hex : List UInt8 → String} {drivers : DriverRegistry}
  {content : List UInt8} {artifact : Option α} {driverId : String} {expectedSize : ℕ}
  {expectedHash : String} {maxBytes : ℕ} {allowTruncate : Bool}

/-- A preview of intact UTF-8 text: a prefix of the complete redaction that fits, and is cut
cleanly if it is cut. -/
structure ShownSafely (sha256Hex : List UInt8 → String) (drivers : DriverRegistry)
    (content : List UInt8) (driverId : String) (expectedSize : ℕ) (expectedHash : String)
    (maxBytes : ℕ) (shown : DisplayContent α) : Prop where
  size : content.length = expectedSize
  hash : sha256Hex content = expectedHash
  utf8 : ∃ chars, content = utf8Bytes chars
  redacted : ∃ redacted, redactStored drivers driverId content = .ok redacted ∧
    shown.text <+: redacted ∧ ¬ TooLong shown.text maxBytes ∧
    (∃ bytes, encode shown.text = some bytes) ∧
    (shown.truncated = true → CutCleanly redacted maxBytes shown.text)

/-- A safe preview, or a `RevisionDisplayError`. -/
def DisplaysSafely (sha256Hex : List UInt8 → String) (drivers : DriverRegistry)
    (content : List UInt8) (driverId : String) (expectedSize : ℕ) (expectedHash : String)
    (maxBytes : ℕ) : Except DisplayFailure (DisplayContent α) → Prop
  | .ok shown => ShownSafely sha256Hex drivers content driverId expectedSize expectedHash maxBytes
    shown
  | .error e => ∃ message, e = .revisionDisplay message

/-- A redaction that can be encoded and cut. -/
def Displayable (redacted : PyText) (maxBytes : ℕ) : Prop :=
  (∃ bytes, encode redacted = some bytes) ∧ ¬ BlankStart redacted maxBytes

theorem exists_of_redactStored {redacted : PyText}
    (h : redactStored drivers driverId content = .ok redacted) :
    ∃ chars, content = utf8Bytes chars := by
  unfold redactStored at h
  cases hdecode : decode content with
  | none =>
    rw [hdecode] at h
    cases h
  | some text => exact exists_of_decode hdecode

theorem not_tooLong_of_le {text : PyText} {bytes : List UInt8} (hencode : encode text = some bytes)
    (hle : bytes.length ≤ maxBytes) : ¬ TooLong text maxBytes := by
  rintro ⟨other, hother, hlong⟩
  rw [hencode] at hother
  obtain rfl := Option.some.inj hother
  omega

/-- A text that fits as a whole has no line that does not fit. -/
theorem not_blankStart_of_le {redacted : PyText} {bytes : List UInt8} (hmax : 0 < maxBytes)
    (hencode : encode redacted = some bytes) (hle : bytes.length ≤ maxBytes) :
    ¬ BlankStart redacted maxBytes := by
  rintro ⟨p, rest, rfl, hp, hlong⟩
  obtain ⟨one, second, hone, hsecond, rfl⟩ := @encode_append_eq_some [p] _ _ hencode
  obtain ⟨bytes, hbytes, hlength⟩ := encode_newline hp
  rw [hone] at hbytes
  obtain rfl := Option.some.inj hbytes
  rw [List.length_append] at hle
  exact not_tooLong_of_le hsecond (by omega)
    (tooLong_of_front hlong (firstLine_front rest) ⟨second, hsecond⟩)

/-- A preview is safe, and nothing but a `RevisionDisplayError` is raised, exactly when the
redaction has no surrogates and its first line is not empty in front of one that is too long:
the encoding is not among the guarded calls, and a line break in front of everything is not
taken for one to cut at. -/
theorem displaysSafely_iff (hmax : 0 < maxBytes) :
    DisplaysSafely sha256Hex drivers content driverId expectedSize expectedHash maxBytes
      (prepareDisplayContent sha256Hex drivers content artifact driverId expectedSize expectedHash
        maxBytes allowTruncate) ↔
    (content.length = expectedSize → sha256Hex content = expectedHash →
      (maxBytes < content.length → allowTruncate = true) →
      ∀ redacted, redactStored drivers driverId content = .ok redacted →
        Displayable redacted maxBytes) := by
  unfold prepareDisplayContent
  by_cases hintact : content.length ≠ expectedSize ∨ sha256Hex content ≠ expectedHash
  · rw [if_pos hintact]
    refine iff_of_true ⟨_, rfl⟩ fun hsize hhash => ?_
    rcases hintact with hne | hne
    · exact absurd hsize hne
    · exact absurd hhash hne
  rw [if_neg hintact]
  rw [not_or, not_not, not_not] at hintact
  by_cases hlarge : maxBytes < content.length ∧ allowTruncate = false
  · rw [if_pos hlarge]
    refine iff_of_true ⟨_, rfl⟩ fun _ _ hallowed => ?_
    rw [hallowed hlarge.1] at hlarge
    cases hlarge.2
  rw [if_neg hlarge]
  have hallowed : maxBytes < content.length → allowTruncate = true := by
    intro hlong
    by_contra hnot
    exact hlarge ⟨hlong, Bool.not_eq_true _ ▸ hnot⟩
  cases hredact : redactStored drivers driverId content with
  | error e => exact iff_of_true ⟨_, rfl⟩ fun _ _ _ _ => nofun
  | ok redacted =>
    have hutf8 := exists_of_redactStored hredact
    have hcondition : (content.length = expectedSize → sha256Hex content = expectedHash →
        (maxBytes < content.length → allowTruncate = true) →
        ∀ other, Except.ok redacted = (Except.ok other : Except DriverFailure PyText) →
          Displayable other maxBytes) ↔ Displayable redacted maxBytes := by
      constructor
      · exact fun h => h hintact.1 hintact.2 hallowed redacted rfl
      · intro h _ _ _ other hother
        rwa [← Except.ok.inj hother]
    rw [hcondition]
    dsimp only
    cases hencode : encode redacted with
    | none =>
      refine iff_of_false ?_ ?_
      · rintro ⟨message, hmessage⟩
        cases hmessage
      · rintro ⟨⟨bytes, hbytes⟩, -⟩
        rw [hencode] at hbytes
        cases hbytes
    | some bytes =>
      dsimp only
      by_cases hlong : maxBytes < bytes.length
      · rw [if_pos hlong]
        obtain ⟨shown, hshown, hle, hahead, hcut⟩ := previewText_spec hmax hencode hlong
        rw [hshown]
        dsimp only
        constructor
        · intro h
          obtain ⟨other, hother, -, -, -, hclean⟩ := h.redacted
          rw [hredact] at hother
          obtain rfl := Except.ok.inj hother
          exact ⟨⟨bytes, hencode⟩, hcut.mp (hclean rfl)⟩
        · rintro ⟨-, hblank⟩
          exact ⟨hintact.1, hintact.2, hutf8, redacted, hredact, hahead,
            not_tooLong_of_le hshown hle, ⟨shown, hshown⟩, fun _ => hcut.mpr hblank⟩
      · rw [if_neg hlong]
        have hle := not_lt.mp hlong
        refine iff_of_true ?_ ⟨⟨bytes, hencode⟩, not_blankStart_of_le hmax hencode hle⟩
        exact ⟨hintact.1, hintact.2, hutf8, redacted, hredact, List.prefix_refl _,
          not_tooLong_of_le hencode hle, ⟨bytes, hencode⟩, nofun⟩

/-- A registry whose drivers redact nothing. -/
def plainDrivers : DriverRegistry := fun _ => .ok fun text => .ok text

/-- A registry whose drivers show a text with a surrogate, as a redacted JSON string can be. -/
def surrogateDrivers : DriverRegistry := fun _ => .ok fun _ => .ok [0xd800]

/-- Two lines of which the first one fits. -/
theorem displaysSafely_iff_cut :
    DisplaysSafely (fun _ => "") plainDrivers [97, 10, 98] "" 3 "" 2
      (prepareDisplayContent (fun _ => "") plainDrivers [97, 10, 98] (none : Option ℕ) "" 3 "" 2
        true) := by
  refine (displaysSafely_iff (by decide)).mpr fun _ _ _ redacted hredact => ?_
  have htext : redactStored plainDrivers "" [97, 10, 98] = .ok (ofString "a\nb") := by
    decide +kernel
  rw [htext] at hredact
  obtain rfl := Except.ok.inj hredact
  refine ⟨⟨[97, 10, 98], by decide +kernel⟩, ?_⟩
  rintro ⟨p, rest, heq, hp, -⟩
  rw [← (List.cons.inj heq).1] at hp
  exact absurd hp (by decide)

/-- A surrogate in the redaction is an error that is not a `RevisionDisplayError`. -/
theorem displaysSafely_counterexample :
    ¬ ∀ (sha256Hex : List UInt8 → String) (drivers : DriverRegistry) (content : List UInt8)
        (driverId : String) (expectedSize : ℕ) (expectedHash : String) (maxBytes : ℕ)
        (allowTruncate : Bool), 0 < maxBytes →
        DisplaysSafely sha256Hex drivers content driverId expectedSize expectedHash maxBytes
          (prepareDisplayContent sha256Hex drivers content (none : Option ℕ) driverId expectedSize
            expectedHash maxBytes allowTruncate) := by
  intro h
  have hraised := h (fun _ => "") surrogateDrivers [] "" 0 "" 1 true Nat.one_pos
  have herror : prepareDisplayContent (fun _ => "") surrogateDrivers [] (none : Option ℕ) "" 0 "" 1
      true = .error .unicodeEncode := by decide +kernel
  rw [herror] at hraised
  obtain ⟨message, hmessage⟩ := hraised
  cases hmessage

end Previewing

end ConfigBackup.RevisionDisplay
