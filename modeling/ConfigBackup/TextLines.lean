import Mathlib.Data.List.Basic
import Mathlib.Tactic.Common

/-!
Texts and their lines over any alphabet. A carriage return that a line feed follows is one
line break, and a break at the end of a text opens no further line.
-/

namespace ConfigBackup.TextLines

section Lines

variable {α : Type} (isBreak : α → Bool) (isReturn isFeed : α → Bool)

/-- The lines of a text; `afterReturn` tells that a carriage return has just been read. -/
def linesFrom : Bool → List α → List (List α)
  | _, [] => []
  | afterReturn, c :: rest =>
    if afterReturn && isFeed c then linesFrom false rest
    else if isBreak c then [] :: linesFrom (isReturn c) rest
    else
      match linesFrom false rest with
      | [] => [[c]]
      | line :: lines => (c :: line) :: lines

/-- `splitlines()`. -/
def splitLines (text : List α) : List (List α) := linesFrom isBreak isReturn isFeed false text

variable {isBreak isReturn isFeed}

/-- No line has a break in it. -/
theorem not_isBreak_of_mem {text line : List α} {afterReturn : Bool}
    (h : line ∈ linesFrom isBreak isReturn isFeed afterReturn text) :
    ∀ c ∈ line, isBreak c = false := by
  induction text generalizing afterReturn line with
  | nil => exact absurd h List.not_mem_nil
  | cons c rest ih =>
    unfold linesFrom at h
    split at h
    · exact ih h
    · split at h
      · rcases List.mem_cons.mp h with rfl | h
        · exact nofun
        · exact ih h
      · rename_i hbreak
        rw [Bool.not_eq_true] at hbreak
        split at h
        · rw [List.mem_singleton.mp h]
          intro other hother
          rwa [List.mem_singleton.mp hother]
        · rename_i first lines hlines
          rcases List.mem_cons.mp h with rfl | h
          · intro other hother
            rcases List.mem_cons.mp hother with rfl | hother
            · exact hbreak
            · exact ih (hlines ▸ List.mem_cons_self) other hother
          · exact ih (hlines ▸ List.mem_cons_of_mem _ h)

end Lines

end ConfigBackup.TextLines
