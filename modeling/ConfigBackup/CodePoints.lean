import ConfigBackup.TextLines
import Mathlib.Data.Fin.Basic

/-!
Texts of the source language. A text is a list of code points; the surrogates among them have
no UTF-8 form, and a text that holds one cannot be encoded. Decoding that ignores errors drops
the bytes that begin no character.
-/

namespace ConfigBackup.CodePoints

open TextLines

abbrev CodePoint := Fin 0x110000

abbrev PyText := List CodePoint

section Characters

theorem toNat_lt (c : Char) : c.toNat < 0x110000 := by
  rcases c.valid with h | h
  · exact h.trans (by decide)
  · exact h.2

def ofChar (c : Char) : CodePoint := ⟨c.toNat, toNat_lt c⟩

def ofString (s : String) : PyText := s.toList.map ofChar

/-- The character of a code point that is not a surrogate. -/
def toChar? (p : CodePoint) : Option Char :=
  if p.val.isValidChar then some (Char.ofNat p.val) else none

theorem toChar?_ofChar (c : Char) : toChar? (ofChar c) = some c := by
  have hvalid : (ofChar c).val.isValidChar := c.valid
  have hnat : Char.ofNat (ofChar c).val = c := Char.ofNat_toNat c
  unfold toChar?
  rw [if_pos hvalid, hnat]

theorem ofChar_of_toChar? {p : CodePoint} {c : Char} (h : toChar? p = some c) : ofChar c = p := by
  unfold toChar? at h
  split at h
  · rename_i hvalid
    obtain rfl := Option.some.inj h
    apply Fin.ext
    change (Char.ofNat p.val).toNat = p.val
    rw [Char.ofNat, dif_pos hvalid]
    rfl
  · cases h

/-- The line breaks of `str.splitlines`. -/
def isLineBreak (p : CodePoint) : Bool :=
  (0x0a ≤ p.val && p.val ≤ 0x0d) || (0x1c ≤ p.val && p.val ≤ 0x1e) || p.val == 0x85 ||
    p.val == 0x2028 || p.val == 0x2029

/-- `text.splitlines()`. -/
def splitlines (text : PyText) : List PyText :=
  splitLines isLineBreak (fun p => p.val == 0x0d) (fun p => p.val == 0x0a) text

end Characters

section Encoding

def utf8Bytes (chars : List Char) : List UInt8 := chars.flatMap String.utf8EncodeChar

/-- `text.encode("utf-8")`. -/
def encode (text : PyText) : Option (List UInt8) := (text.mapM toChar?).map utf8Bytes

/-- `bytes.decode("utf-8")`. -/
def decode (bytes : List UInt8) : Option PyText :=
  (bytes.toByteArray.utf8Decode?).map (fun chars => chars.toList.map ofChar)

/-- The characters of bytes of which those that begin no character are dropped. -/
def validChars : ℕ → List UInt8 → List Char
  | 0, _ => []
  | _, [] => []
  | fuel + 1, byte :: rest =>
    match (byte :: rest).toByteArray.utf8DecodeChar? 0 with
    | some c => c :: validChars fuel ((byte :: rest).drop c.utf8Size)
    | none => validChars fuel rest

/-- `bytes.decode("utf-8", errors="ignore")`. -/
def decodeIgnore (bytes : List UInt8) : PyText := (validChars bytes.length bytes).map ofChar

variable {text : PyText} {chars : List Char}

theorem mapM_ofChar (chars : List Char) : (chars.map ofChar).mapM toChar? = some chars := by
  induction chars with
  | nil => rfl
  | cons c chars ih =>
    rw [List.map_cons, List.mapM_cons, toChar?_ofChar, ih]
    rfl

theorem encode_ofChar (chars : List Char) : encode (chars.map ofChar) = some (utf8Bytes chars) := by
  unfold encode
  rw [mapM_ofChar]
  rfl

/-- A text that can be encoded consists of characters. -/
theorem exists_chars {bytes : List UInt8} (h : encode text = some bytes) :
    ∃ chars : List Char, text = chars.map ofChar ∧ bytes = utf8Bytes chars := by
  unfold encode at h
  obtain ⟨chars, hchars, rfl⟩ := Option.map_eq_some_iff.mp h
  refine ⟨chars, ?_, rfl⟩
  clear h
  induction text generalizing chars with
  | nil =>
    obtain rfl : [] = chars := Option.some.inj hchars
    rfl
  | cons p text ih =>
    rw [List.mapM_cons] at hchars
    obtain ⟨c, hc, hchars⟩ := Option.bind_eq_some_iff.mp hchars
    obtain ⟨rest, hrest, hchars⟩ := Option.bind_eq_some_iff.mp hchars
    obtain rfl : c :: rest = chars := Option.some.inj hchars
    rw [List.map_cons, ofChar_of_toChar? hc, ih rest hrest]

/-- Bytes that are decoded are the encoding of characters. -/
theorem exists_of_decode {bytes : List UInt8} (h : decode bytes = some text) :
    ∃ chars, bytes = utf8Bytes chars := by
  unfold decode at h
  obtain ⟨chars, hchars, -⟩ := Option.map_eq_some_iff.mp h
  obtain ⟨found, hfound⟩ := ByteArray.isSome_utf8Decode?_iff.mp (Option.isSome_of_mem hchars)
  exact ⟨found, List.toByteArray_inj.mp hfound⟩

theorem utf8Bytes_append (front rest : List Char) :
    utf8Bytes (front ++ rest) = utf8Bytes front ++ utf8Bytes rest :=
  List.flatMap_append

theorem utf8Bytes_cons (c : Char) (rest : List Char) :
    utf8Bytes (c :: rest) = String.utf8EncodeChar c ++ utf8Bytes rest :=
  List.flatMap_cons

/-- A character is read back from its bytes, whatever follows them. -/
theorem decodeChar_append (c : Char) (rest : List UInt8) :
    (String.utf8EncodeChar c ++ rest).toByteArray.utf8DecodeChar? 0 = some c := by
  rw [List.toByteArray_append]
  exact ByteArray.utf8DecodeChar?_utf8EncodeChar_append

theorem eq_append_of_decodeChar {bytes : List UInt8} {c : Char}
    (h : bytes.toByteArray.utf8DecodeChar? 0 = some c) :
    ∃ rest, bytes = String.utf8EncodeChar c ++ rest := by
  obtain ⟨rest, hrest⟩ := ByteArray.exists_of_utf8DecodeChar?_eq_some h
  refine ⟨rest.data.toList, ?_⟩
  have hlist := congrArg (fun b : ByteArray => b.data.toList) hrest
  simpa using hlist

theorem utf8EncodeChar_eq_cons (c : Char) :
    ∃ byte rest, String.utf8EncodeChar c = byte :: rest ∧ byte.IsUTF8FirstByte ∧
      ∀ other ∈ rest, ¬ other.IsUTF8FirstByte := by
  cases hbytes : String.utf8EncodeChar c with
  | nil => exact absurd hbytes String.utf8EncodeChar_ne_nil
  | cons byte rest =>
    have hfirst : ∀ (i : ℕ) (hi : i < (byte :: rest).length),
        (byte :: rest)[i].IsUTF8FirstByte ↔ i = 0 := by
      rw [← hbytes]
      exact fun i hi => UInt8.isUTF8FirstByte_getElem_utf8EncodeChar
    refine ⟨byte, rest, rfl, (hfirst 0 (Nat.succ_pos _)).mpr rfl, fun other hother => ?_⟩
    obtain ⟨i, hi, rfl⟩ := List.getElem_of_mem hother
    exact fun h => absurd ((hfirst (i + 1) (Nat.succ_lt_succ hi)).mp h) (Nat.succ_ne_zero i)

/-- Bytes that continue a character begin none. -/
theorem validChars_continuation {bytes : List UInt8} (h : ∀ byte ∈ bytes, ¬ byte.IsUTF8FirstByte)
    (fuel : ℕ) : validChars fuel bytes = [] := by
  induction fuel generalizing bytes with
  | zero => rfl
  | succ fuel ih =>
    cases bytes with
    | nil => rfl
    | cons byte rest =>
      unfold validChars
      cases hdecode : (byte :: rest).toByteArray.utf8DecodeChar? 0 with
      | none => exact ih fun other hother => h other (List.mem_cons_of_mem _ hother)
      | some c =>
        obtain ⟨tail, htail⟩ := eq_append_of_decodeChar hdecode
        obtain ⟨first, others, hbytes, hfirst, -⟩ := utf8EncodeChar_eq_cons c
        rw [hbytes, List.cons_append] at htail
        rw [(List.cons.inj htail).1] at h
        exact absurd hfirst (h first List.mem_cons_self)

/-- A character that is cut off is dropped. -/
theorem validChars_cut (c : Char) {count : ℕ} (h : count < c.utf8Size) (fuel : ℕ) :
    validChars fuel ((String.utf8EncodeChar c).take count) = [] := by
  obtain ⟨byte, rest, hbytes, -, hrest⟩ := utf8EncodeChar_eq_cons c
  cases fuel with
  | zero => rfl
  | succ fuel =>
    cases count with
    | zero => rfl
    | succ count =>
      have htake : (String.utf8EncodeChar c).take (count + 1) = byte :: rest.take count := by
        rw [hbytes, List.take_succ_cons]
      unfold validChars
      rw [htake]
      dsimp only
      cases hdecode : (byte :: rest.take count).toByteArray.utf8DecodeChar? 0 with
      | none =>
        exact validChars_continuation
          (fun other hother => hrest other (List.mem_of_mem_take hother)) fuel
      | some d =>
        -- the bytes in front of the cut would be another character's
        obtain ⟨tail, htail⟩ := eq_append_of_decodeChar hdecode
        have hwhole : String.utf8EncodeChar c =
            String.utf8EncodeChar d ++ (tail ++ (String.utf8EncodeChar c).drop (count + 1)) := by
          rw [← List.append_assoc, ← htail, ← htake, List.take_append_drop]
        have hsame : c = d := by
          have hread := decodeChar_append c []
          rw [List.append_nil, hwhole, decodeChar_append d] at hread
          exact (Option.some.inj hread).symm
        have hlength := congrArg List.length htail
        rw [← htake, List.length_take, List.length_append, String.length_utf8EncodeChar,
          String.length_utf8EncodeChar, hsame] at hlength
        rw [hsame] at h
        omega

/-- The characters that fit into a number of bytes. -/
def fitting : ℕ → List Char → List Char
  | _, [] => []
  | count, c :: rest => if c.utf8Size ≤ count then c :: fitting (count - c.utf8Size) rest else []

theorem validChars_take (count : ℕ) (chars : List Char) {fuel : ℕ}
    (hfuel : ((utf8Bytes chars).take count).length ≤ fuel) :
    validChars fuel ((utf8Bytes chars).take count) = fitting count chars := by
  induction chars generalizing count fuel with
  | nil =>
    rw [utf8Bytes, List.flatMap_nil, List.take_nil]
    cases fuel <;> rfl
  | cons c rest ih =>
    have hlength := String.length_utf8EncodeChar c
    have hpos := c.utf8Size_pos
    unfold fitting
    rw [utf8Bytes_cons] at hfuel ⊢
    split
    · rename_i hfits
      have htake : (String.utf8EncodeChar c ++ utf8Bytes rest).take count =
          String.utf8EncodeChar c ++ (utf8Bytes rest).take (count - c.utf8Size) := by
        rw [List.take_append, List.take_of_length_le (by omega), hlength]
      rw [htake, List.length_append, hlength] at hfuel
      rw [htake]
      cases fuel with
      | zero => omega
      | succ fuel =>
        have hdecode := decodeChar_append c ((utf8Bytes rest).take (count - c.utf8Size))
        have hdrop : (String.utf8EncodeChar c ++
            (utf8Bytes rest).take (count - c.utf8Size)).drop c.utf8Size =
              (utf8Bytes rest).take (count - c.utf8Size) := by
          rw [← hlength, List.drop_left]
        have hnext := @ih (count - c.utf8Size) fuel (by omega)
        obtain ⟨byte, others, hbytes, -, -⟩ := utf8EncodeChar_eq_cons c
        rw [hbytes, List.cons_append] at hdecode hdrop ⊢
        unfold validChars
        rw [hdecode]
        dsimp only
        rw [hdrop, hnext]
    · rename_i hcut
      rw [List.take_append_of_le_length (by omega)]
      exact validChars_cut c (by omega) fuel

/-- The start of an encoded text decodes to the characters that fit. -/
theorem decodeIgnore_take (count : ℕ) (chars : List Char) :
    decodeIgnore ((utf8Bytes chars).take count) = (fitting count chars).map ofChar := by
  unfold decodeIgnore
  rw [validChars_take count chars le_rfl]

/-- What fits is a prefix, and the next character does not fit any more. -/
theorem exists_fitting (count : ℕ) (chars : List Char) :
    ∃ rest, chars = fitting count chars ++ rest ∧
      (utf8Bytes (fitting count chars)).length ≤ count ∧
      ∀ c tail, rest = c :: tail →
        count < (utf8Bytes (fitting count chars)).length + c.utf8Size := by
  induction chars generalizing count with
  | nil => exact ⟨[], rfl, Nat.zero_le _, nofun⟩
  | cons c chars ih =>
    unfold fitting
    split
    · rename_i hfits
      obtain ⟨rest, hrest, hle, hnext⟩ := ih (count - c.utf8Size)
      refine ⟨rest, congrArg (List.cons c) hrest, ?_, fun d tail hd => ?_⟩
      · rw [utf8Bytes_cons, List.length_append, String.length_utf8EncodeChar]
        omega
      · have hd' := hnext d tail hd
        rw [utf8Bytes_cons, List.length_append, String.length_utf8EncodeChar]
        omega
    · rename_i hcut
      refine ⟨c :: chars, rfl, Nat.zero_le _, ?_⟩
      rintro d tail ⟨⟩
      have hnil : (utf8Bytes []).length = 0 := rfl
      omega

/-- A text is encoded part by part. -/
theorem encode_append_eq_some {front rest : PyText} {bytes : List UInt8}
    (h : encode (front ++ rest) = some bytes) :
    ∃ first second, encode front = some first ∧ encode rest = some second ∧
      bytes = first ++ second := by
  obtain ⟨chars, hchars, rfl⟩ := exists_chars h
  obtain ⟨left, right, rfl, rfl, rfl⟩ := List.map_eq_append_iff.mp hchars.symm
  exact ⟨utf8Bytes left, utf8Bytes right, encode_ofChar left, encode_ofChar right,
    utf8Bytes_append left right⟩

theorem encode_append {front rest : PyText} {first second : List UInt8}
    (hfront : encode front = some first) (hrest : encode rest = some second) :
    encode (front ++ rest) = some (first ++ second) := by
  obtain ⟨left, rfl, rfl⟩ := exists_chars hfront
  obtain ⟨right, rfl, rfl⟩ := exists_chars hrest
  rw [← List.map_append, encode_ofChar, utf8Bytes_append]

/-- The bytes that a limit leaves of an encoded text decode to a prefix of it, which the
next code point would make too long. -/
theorem exists_preview {bytes : List UInt8} (h : encode text = some bytes) (count : ℕ) :
    ∃ rest shown, text = decodeIgnore (bytes.take count) ++ rest ∧
      encode (decodeIgnore (bytes.take count)) = some shown ∧ shown.length ≤ count ∧
      ∀ p tail, rest = p :: tail →
        ∃ next, encode [p] = some next ∧ count < shown.length + next.length := by
  obtain ⟨chars, rfl, rfl⟩ := exists_chars h
  rw [decodeIgnore_take]
  obtain ⟨rest, hrest, hle, hnext⟩ := exists_fitting count chars
  refine ⟨rest.map ofChar, utf8Bytes (fitting count chars), ?_, encode_ofChar _, hle, ?_⟩
  · rw [← List.map_append, ← hrest]
  · intro p tail hp
    obtain ⟨c, others, rfl, rfl, -⟩ := List.map_eq_cons_iff.mp hp
    refine ⟨utf8Bytes [c], encode_ofChar [c], ?_⟩
    have hlt := hnext c others rfl
    rwa [show (utf8Bytes [c]).length = c.utf8Size by
      rw [utf8Bytes, List.flatMap_singleton, String.length_utf8EncodeChar]]

end Encoding

end ConfigBackup.CodePoints
