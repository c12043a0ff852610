import Mathlib.Data.List.DropRight
import Mathlib.Tactic.Common

/-!
Strings as lists of characters, with the operations of the source language
that path and file names are built with: stripping, substitution of runs,
POSIX joining and splitting, and zero-padded numbers.
-/

namespace ConfigBackup.Text

/-- `str.isspace` of one character. -/
def isSpace (c : Char) : Bool :=
  (9 ≤ c.val && c.val ≤ 13) || (28 ≤ c.val && c.val ≤ 32) || c.val == 0x85 || c.val == 0xa0 ||
    c.val == 0x1680 || (0x2000 ≤ c.val && c.val ≤ 0x200a) || c.val == 0x2028 ||
    c.val == 0x2029 || c.val == 0x202f || c.val == 0x205f || c.val == 0x3000

/-- `s.encode("ascii", "ignore").decode("ascii")`. -/
def asciiOnly (s : List Char) : List Char := s.filter (fun c => decide (c.val < 128))

/-- `s.lstrip` of the characters that satisfy `p`. -/
def lstrip (p : Char → Bool) (s : List Char) : List Char := s.dropWhile p

/-- `s.rstrip` of the characters that satisfy `p`. -/
def rstrip (p : Char → Bool) (s : List Char) : List Char := s.rdropWhile p

def strip (p : Char → Bool) (s : List Char) : List Char := rstrip p (lstrip p s)

/-- Replace every maximal run of characters that satisfy `p` by one character. -/
def substituteRuns (p : Char → Bool) (by' : Char) : Bool → List Char → List Char
  | _, [] => []
  | inRun, c :: rest =>
    if p c then
      if inRun then substituteRuns p by' true rest else by' :: substituteRuns p by' true rest
    else c :: substituteRuns p by' false rest

/-- `separator.join(pieces)` for a one-character separator. -/
def joinWith (separator : Char) (pieces : List (List Char)) : List Char :=
  [separator].intercalate pieces

/-- `posixpath.join(path, piece)`. -/
def joinPath (path piece : List Char) : List Char :=
  if piece.head? = some '/' then piece
  else if path = [] ∨ path.getLast? = some '/' then path ++ piece
  else path ++ '/' :: piece

/-- `posixpath.join(path, *pieces)`. -/
def joinPaths (path : List Char) (pieces : List (List Char)) : List Char :=
  pieces.foldl joinPath path

/-- A number in decimal notation, padded with zeros to two places. -/
def twoDigits (n : ℕ) : List Char :=
  if n < 10 then '0' :: Nat.toDigits 10 n else Nat.toDigits 10 n

theorem joinPath_ends (path : List Char) {c : Char} (hc : c ≠ '/') (rest : List Char) :
    ∃ front, joinPath path (c :: rest) = front ++ c :: rest := by
  unfold joinPath
  rw [if_neg (by simpa using hc)]
  split
  · exact ⟨path, rfl⟩
  · exact ⟨path ++ ['/'], by simp⟩

/-- The final run of digits of a text, after a character that is not a digit. -/
theorem rtakeWhile_isDigit {front : List Char} {c : Char} (hc : c.isDigit = false) (n : ℕ) :
    (front ++ c :: Nat.toDigits 10 n).rtakeWhile Char.isDigit = Nat.toDigits 10 n := by
  have hdigits : ∀ d ∈ (Nat.toDigits 10 n).reverse, d.isDigit = true := fun d hd =>
    Nat.isDigit_of_mem_toDigits (by omega) (by omega) (List.mem_reverse.mp hd)
  rw [List.rtakeWhile, List.reverse_append, List.reverse_cons, List.append_assoc,
    List.takeWhile_append_of_pos hdigits]
  simp [hc]

/-- Two texts that end in numbers after non-digits agree on those numbers. -/
theorem toDigits_suffix_inj {front front' : List Char} {c c' : Char} {n n' : ℕ}
    (hc : c.isDigit = false) (hc' : c'.isDigit = false)
    (h : front ++ c :: Nat.toDigits 10 n = front' ++ c' :: Nat.toDigits 10 n') : n = n' := by
  have hdigits : Nat.toDigits 10 n = Nat.toDigits 10 n' := by
    rw [← rtakeWhile_isDigit hc, h, rtakeWhile_isDigit hc']
  rw [← @Nat.ofDigitChars_ten_toDigits n, hdigits, Nat.ofDigitChars_ten_toDigits]

example : joinPath ['a'] ['b'] = ['a', '/', 'b'] ∧ joinPath ['a', '/'] ['b'] = ['a', '/', 'b'] ∧
    substituteRuns isSpace '-' false ['a', ' ', ' ', 'b'] = ['a', '-', 'b'] := by decide

end ConfigBackup.Text
