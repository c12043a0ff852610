import Mathlib.Data.List.Basic
import Mathlib.Logic.Relation
import Mathlib.Tactic.Common

/-!
Regular expressions as a backtracking matcher reads them: the ways in which a pattern
reads the front of a text, in the order in which the matcher tries them. A substitution
goes through the text from the left, keeps the first part of each match and writes a
mask in the place of the second.
-/

namespace ConfigBackup.SearchPatterns

universe u

variable {α : Type u}

inductive Pattern (α : Type u) : Type u
  | empty
  | one (accepts : α → Bool)
  | many (accepts : α → Bool)
  | between (accepts : Option α → Option α → Bool)
  | seq (first second : Pattern α)
  | alt (first second : Pattern α)

/-- The letter before the text that follows what was read. -/
def lastOf (before : Option α) (read : List α) : Option α := read.getLast?.or before

/-- The ways to read a run of accepted letters, the longest first. -/
def runs (accepts : α → Bool) : List α → List (List α × List α)
  | [] => [([], [])]
  | a :: rest =>
    if accepts a then (runs accepts rest).map (fun way => (a :: way.1, way.2)) ++ [([], a :: rest)]
    else [([], a :: rest)]

namespace Pattern

/-- The ways in which a pattern reads the front of a text, each with the text that is left. -/
def ways : Pattern α → Option α → List α → List (List α × List α)
  | .empty, _, text => [([], text)]
  | .one _, _, [] => []
  | .one accepts, _, a :: rest => if accepts a then [([a], rest)] else []
  | .many accepts, _, text => runs accepts text
  | .between accepts, before, text => if accepts before text.head? then [([], text)] else []
  | .seq first second, before, text =>
    (first.ways before text).flatMap fun way =>
      (second.ways (lastOf before way.1) way.2).map fun next => (way.1 ++ next.1, next.2)
  | .alt first second, before, text => first.ways before text ++ second.ways before text

/-- `x+`. -/
def some' (accepts : α → Bool) : Pattern α := .seq (.one accepts) (.many accepts)

/-- `(?:p)?`. -/
def maybe (pattern : Pattern α) : Pattern α := .alt pattern .empty

/-- `(?:p|q|...)`. -/
def anyOf (patterns : List (Pattern α)) : Pattern α :=
  patterns.foldr .alt (.one fun _ => false)

/-- A word, letter by letter up to a folding of letters such as their case. -/
def word {β : Type u} [DecidableEq β] (fold : α → β) : List β → Pattern α
  | [] => .empty
  | b :: rest => .seq (.one fun a => fold a == b) (word fold rest)

end Pattern

/-- A pattern in two parts: a match keeps what the lead reads and loses the value. -/
structure Masking (α : Type u) where
  lead : Pattern α
  value : Pattern α
  value_ne : ∀ before text way, way ∈ value.ways before text → way.1 ≠ []

namespace Masking

variable (m : Masking α)

/-- The first match at the front of a text: what the lead reads, the value, and the rest. -/
def match? (before : Option α) (text : List α) : Option (List α × List α × List α) :=
  ((m.lead.ways before text).flatMap fun way =>
    (m.value.ways (lastOf before way.1) way.2).map fun next => (way.1, next.1, next.2)).head?

/-- The substitution from a place on; the number counts letters of a match still to skip. -/
def subFrom (mask : List α) : Option α → ℕ → List α → List α
  | _, _, [] => []
  | _, skip + 1, a :: rest => subFrom mask (some a) skip rest
  | before, 0, a :: rest =>
    match m.match? before (a :: rest) with
    | some (lead, value, _) =>
      lead ++ mask ++ subFrom mask (some a) (lead.length + value.length - 1) rest
    | none => a :: subFrom mask (some a) 0 rest

/-- `pattern.sub(r"\1" + mask, text)`. -/
def sub (mask text : List α) : List α := m.subFrom mask none 0 text

end Masking

/-! Ways to split a list. -/

/-- A list has one split into a part that ends outside a class and a tail inside it. -/
theorem split_unique {p : α → Prop} {front front' tail tail' : List α}
    (h : front ++ tail = front' ++ tail') (htail : ∀ c ∈ tail, p c) (htail' : ∀ c ∈ tail', p c)
    (hfront : ∀ c ∈ front.getLast?, ¬ p c) (hfront' : ∀ c ∈ front'.getLast?, ¬ p c) :
    front = front' ∧ tail = tail' := by
  rcases List.append_eq_append_iff.mp h with ⟨more, rfl, rfl⟩ | ⟨more, rfl, rfl⟩
  all_goals
    rcases List.eq_nil_or_concat more with rfl | ⟨more, c, rfl⟩
    · simp
    · simp_all

/-- A list has one split at the last place of a letter. -/
theorem split_last_unique {a : α} {front front' tail tail' : List α}
    (h : front ++ a :: tail = front' ++ a :: tail') (htail : a ∉ tail) (htail' : a ∉ tail') :
    front = front' ∧ tail = tail' := by
  have hsplit := @split_unique _ (· ≠ a) (front ++ [a]) (front' ++ [a]) tail tail'
    (by simpa using h) (fun c hc => ne_of_mem_of_not_mem hc htail)
    (fun c hc => ne_of_mem_of_not_mem hc htail') (by simp) (by simp)
  exact ⟨List.append_cancel_right hsplit.1, hsplit.2⟩

/-- A list has one split at the first place of a letter. -/
theorem split_first_unique {a : α} {front front' tail tail' : List α}
    (h : front ++ a :: tail = front' ++ a :: tail') (hfront : a ∉ front) (hfront' : a ∉ front') :
    front = front' ∧ tail = tail' := by
  have hrev : tail.reverse ++ a :: front.reverse = tail'.reverse ++ a :: front'.reverse := by
    have := congrArg List.reverse h
    simpa using this
  obtain ⟨htail, hfronts⟩ := split_last_unique hrev (by simpa using hfront) (by simpa using hfront')
  exact ⟨List.reverse_injective hfronts, List.reverse_injective htail⟩

/-! Ways to read a text. -/

theorem lastOf_nil (before : Option α) : lastOf before [] = before := rfl

@[simp] theorem lastOf_concat (before : Option α) (read : List α) (a : α) :
    lastOf before (read ++ [a]) = some a := by
  simp [lastOf]

theorem lastOf_append (before : Option α) (read next : List α) :
    lastOf (lastOf before read) next = lastOf before (read ++ next) := by
  simp [lastOf, List.getLast?_append, Option.or_assoc]

theorem lastOf_none (read : List α) : lastOf none read = read.getLast? := by
  simp [lastOf]

theorem mem_runs {accepts : α → Bool} {text : List α} {way : List α × List α} :
    way ∈ runs accepts text ↔ way.1 ++ way.2 = text ∧ ∀ a ∈ way.1, accepts a = true := by
  induction text generalizing way with
  | nil =>
    obtain ⟨read, rest⟩ := way
    simp only [runs, List.mem_singleton, Prod.mk.injEq, List.append_eq_nil_iff]
    constructor
    · rintro ⟨rfl, rfl⟩
      simp
    · exact fun h => h.1
  | cons a text ih =>
    obtain ⟨read, rest⟩ := way
    cases read with
    | nil =>
      unfold runs
      split <;> simp [@eq_comm _ rest]
    | cons b read =>
      unfold runs
      split
      · rename_i ha
        simp only [List.mem_append, List.mem_map, List.mem_singleton, Prod.mk.injEq,
          List.cons.injEq, reduceCtorEq, false_and, or_false, List.cons_append,
          List.forall_mem_cons]
        constructor
        · rintro ⟨way, hway, ⟨rfl, rfl⟩, rfl⟩
          obtain ⟨htext, hall⟩ := ih.mp hway
          exact ⟨⟨rfl, htext⟩, ha, hall⟩
        · rintro ⟨⟨rfl, htext⟩, -, hall⟩
          exact ⟨(read, rest), ih.mpr ⟨htext, hall⟩, ⟨rfl, rfl⟩, rfl⟩
      · rename_i ha
        simp only [List.mem_singleton, Prod.mk.injEq, reduceCtorEq, false_and, List.cons_append,
          List.cons.injEq, List.forall_mem_cons, false_iff]
        rintro ⟨⟨rfl, -⟩, hb, -⟩
        exact ha hb

/-- The longest run is tried first. -/
theorem head?_runs {accepts : α → Bool} {read rest : List α}
    (hread : ∀ a ∈ read, accepts a = true) (hrest : ∀ a ∈ rest.head?, accepts a = false) :
    (runs accepts (read ++ rest)).head? = some (read, rest) := by
  induction read with
  | nil =>
    cases rest with
    | nil => rfl
    | cons a rest => simp [runs, hrest a rfl]
  | cons a read ih =>
    obtain ⟨ha, hread⟩ := List.forall_mem_cons.mp hread
    rw [List.cons_append, runs, if_pos ha, List.head?_append, List.head?_map, ih hread]
    rfl

namespace Pattern

variable {before : Option α} {text : List α} {way : List α × List α}

section

-- The equations of `ways` are made once, before the lemmas that rewrite with them.
attribute [local simp] ways

end

theorem mem_ways_seq {first second : Pattern α} :
    way ∈ (seq first second).ways before text ↔
      ∃ way' ∈ first.ways before text, ∃ next ∈ second.ways (lastOf before way'.1) way'.2,
        way = (way'.1 ++ next.1, next.2) := by
  simp [ways, eq_comm]

theorem mem_ways_alt {first second : Pattern α} :
    way ∈ (alt first second).ways before text ↔
      way ∈ first.ways before text ∨ way ∈ second.ways before text := by
  simp [ways]

theorem mem_ways_one {accepts : α → Bool} :
    way ∈ (one accepts).ways before text ↔
      ∃ a, accepts a = true ∧ way.1 = [a] ∧ text = a :: way.2 := by
  obtain ⟨read, rest⟩ := way
  cases text with
  | nil => simp [ways]
  | cons b text =>
    rw [ways]
    split
    · rename_i hb
      simp only [List.mem_singleton, Prod.mk.injEq, List.cons.injEq]
      constructor
      · rintro ⟨rfl, rfl⟩
        exact ⟨b, hb, rfl, rfl, rfl⟩
      · rintro ⟨a, -, rfl, rfl, rfl⟩
        exact ⟨rfl, rfl⟩
    · rename_i hb
      simp only [List.not_mem_nil, List.cons.injEq, false_iff]
      rintro ⟨a, ha, -, rfl, -⟩
      exact hb ha

theorem mem_ways_many {accepts : α → Bool} :
    way ∈ (many accepts).ways before text ↔
      way.1 ++ way.2 = text ∧ ∀ a ∈ way.1, accepts a = true := by
  rw [ways]
  exact mem_runs

theorem mem_ways_empty : way ∈ (empty : Pattern α).ways before text ↔ way = ([], text) := by
  simp [ways]

theorem mem_ways_between {accepts : Option α → Option α → Bool} :
    way ∈ (between accepts).ways before text ↔
      accepts before text.head? = true ∧ way = ([], text) := by
  rw [ways]
  split <;> simp_all

theorem mem_ways_maybe {pattern : Pattern α} :
    way ∈ (maybe pattern).ways before text ↔
      way ∈ pattern.ways before text ∨ way = ([], text) := by
  rw [maybe, mem_ways_alt, mem_ways_empty]

theorem mem_ways_some' {accepts : α → Bool} :
    way ∈ (some' accepts).ways before text ↔
      way.1 ++ way.2 = text ∧ way.1 ≠ [] ∧ ∀ a ∈ way.1, accepts a = true := by
  obtain ⟨read, rest⟩ := way
  simp only [some', mem_ways_seq, mem_ways_one, mem_ways_many, Prod.mk.injEq]
  constructor
  · rintro ⟨⟨front, middle⟩, ⟨a, ha, rfl, rfl⟩, ⟨more, rest'⟩, ⟨rfl, hmore⟩, rfl, rfl⟩
    simpa [ha] using hmore
  · rintro ⟨rfl, hne, hall⟩
    obtain ⟨a, more, rfl⟩ := List.exists_cons_of_ne_nil hne
    obtain ⟨ha, hmore⟩ := List.forall_mem_cons.mp hall
    exact ⟨([a], more ++ rest), ⟨a, ha, rfl, rfl⟩, (more, rest), ⟨rfl, hmore⟩, rfl, rfl⟩

theorem ways_anyOf (patterns : List (Pattern α)) :
    (anyOf patterns).ways before text = patterns.flatMap fun p => p.ways before text := by
  induction patterns with
  | nil => cases text <;> simp [anyOf, ways]
  | cons p rest ih =>
    simp only [anyOf, List.foldr_cons, ways, List.flatMap_cons, List.append_cancel_left_eq]
    exact ih

/-- A word is read in one way or in none. -/
theorem ways_word {β : Type u} [DecidableEq β] (fold : α → β) (letters : List β) :
    (word fold letters).ways before text =
      if (text.take letters.length).map fold = letters
      then [(text.take letters.length, text.drop letters.length)] else [] := by
  induction letters generalizing before text with
  | nil => simp [word, ways]
  | cons b rest ih =>
    cases text with
    | nil => simp [word, ways]
    | cons a text =>
      simp only [word, ways, beq_iff_eq, List.length_cons, List.take_succ_cons, List.map_cons,
        List.cons.injEq, List.drop_succ_cons]
      by_cases hab : fold a = b
      · simp only [hab, if_true, List.flatMap_cons, List.flatMap_nil, List.append_nil, ih, true_and]
        split <;> simp
      · simp [hab]

theorem mem_ways_word {β : Type u} [DecidableEq β] {fold : α → β} {letters : List β} :
    way ∈ (word fold letters).ways before text ↔
      way.1 ++ way.2 = text ∧ way.1.map fold = letters := by
  obtain ⟨read, rest⟩ := way
  rw [ways_word]
  constructor
  · intro h
    split at h
    · rename_i hletters
      obtain ⟨rfl, rfl⟩ := Prod.mk.inj (List.mem_singleton.mp h)
      exact ⟨List.take_append_drop _ _, hletters⟩
    · exact absurd h List.not_mem_nil
  · rintro ⟨rfl, rfl⟩
    simp

theorem mem_ways_anyOf {patterns : List (Pattern α)} :
    way ∈ (anyOf patterns).ways before text ↔ ∃ p ∈ patterns, way ∈ p.ways before text := by
  rw [ways_anyOf, List.mem_flatMap]

/-- What a pattern reads, followed by what it leaves, is the text. -/
theorem append_of_mem_ways (pattern : Pattern α) (h : way ∈ pattern.ways before text) :
    way.1 ++ way.2 = text := by
  induction pattern generalizing before text way with
  | empty => simp [mem_ways_empty.mp h]
  | one accepts =>
    obtain ⟨a, -, hread, rfl⟩ := mem_ways_one.mp h
    simp [hread]
  | many accepts => exact (mem_ways_many.mp h).1
  | between accepts => simp [(mem_ways_between.mp h).2]
  | seq first second ih ih' =>
    obtain ⟨way', hway', next, hnext, rfl⟩ := mem_ways_seq.mp h
    have hfront := ih hway'
    have hback := ih' hnext
    simp [hback, hfront]
  | alt first second ih ih' =>
    rcases mem_ways_alt.mp h with h | h
    · exact ih h
    · exact ih' h

/-- A run of accepted letters is read whole before anything shorter is tried. -/
theorem head?_ways_some' {accepts : α → Bool} {read rest : List α} (hne : read ≠ [])
    (hread : ∀ a ∈ read, accepts a = true) (hrest : ∀ a ∈ rest.head?, accepts a = false) :
    ((some' accepts).ways before (read ++ rest)).head? = some (read, rest) := by
  obtain ⟨a, more, rfl⟩ := List.exists_cons_of_ne_nil hne
  obtain ⟨ha, hmore⟩ := List.forall_mem_cons.mp hread
  simp [some', ways, ha, head?_runs hmore hrest]

theorem ways_some'_eq_nil {accepts : α → Bool} (h : ∀ a ∈ text.head?, accepts a = false) :
    (some' accepts).ways before text = [] := by
  cases text with
  | nil => simp [some', ways]
  | cons a rest => simp [some', ways, h a rfl]

/-- The first way that lets what comes after it succeed, as backtracking finds it. -/
def firstThen {β : Type*} (pattern : Pattern α) (before : Option α) (text : List α)
    (next : List α × List α → Option β) : Option β :=
  (pattern.ways before text).findSome? next

variable {β : Type*} {next : List α × List α → Option β} {found : β}

theorem firstThen_seq {first second : Pattern α} :
    (seq first second).firstThen before text next =
      first.firstThen before text fun way =>
        second.firstThen (lastOf before way.1) way.2 fun more =>
          next (way.1 ++ more.1, more.2) := by
  simp only [firstThen, ways]
  induction first.ways before text with
  | nil => rfl
  | cons way rest ih =>
    rw [List.flatMap_cons, List.findSome?_append, ih, List.findSome?_cons, List.findSome?_map]
    simp only [Function.comp_def]
    cases List.findSome? _ (second.ways (lastOf before way.1) way.2) <;> rfl

theorem firstThen_alt {first second : Pattern α} :
    (alt first second).firstThen before text next =
      (first.firstThen before text next).or (second.firstThen before text next) := by
  simp only [firstThen, ways, List.findSome?_append]

theorem firstThen_maybe {pattern : Pattern α} :
    (maybe pattern).firstThen before text next =
      (pattern.firstThen before text next).or (next ([], text)) := by
  rw [maybe, firstThen_alt]
  simp [firstThen, ways]

theorem firstThen_between {accepts : Option α → Option α → Bool}
    (h : accepts before text.head? = true) :
    (between accepts).firstThen before text next = next ([], text) := by
  rw [firstThen, ways, if_pos h, List.findSome?_cons]
  cases next ([], text) <;> rfl

theorem firstThen_eq_none {pattern : Pattern α}
    (h : ∀ way ∈ pattern.ways before text, next way = none) :
    pattern.firstThen before text next = none := List.findSome?_eq_none_iff.mpr h

theorem exists_of_firstThen {pattern : Pattern α}
    (h : pattern.firstThen before text next = some found) :
    ∃ way ∈ pattern.ways before text, next way = some found :=
  List.exists_of_findSome?_eq_some h

theorem firstThen_of_head? {pattern : Pattern α}
    (hway : (pattern.ways before text).head? = some way) (hnext : next way = some found) :
    pattern.firstThen before text next = some found := by
  obtain ⟨rest, hways⟩ := List.head?_eq_some_iff.mp hway
  rw [firstThen, hways, List.findSome?_cons, hnext]

/-- Where a pattern reads in one way only, what comes after it decides. -/
theorem firstThen_of_unique {pattern : Pattern α} (hway : way ∈ pattern.ways before text)
    (hunique : ∀ way' ∈ pattern.ways before text, way' = way) :
    pattern.firstThen before text next = next way := by
  rw [firstThen]
  revert hway hunique
  induction pattern.ways before text with
  | nil => exact fun hway => absurd hway List.not_mem_nil
  | cons head rest ih =>
    intro hway hunique
    obtain rfl := hunique head List.mem_cons_self
    rw [List.findSome?_cons]
    cases hnext : next head with
    | some _ => rfl
    | none =>
      refine List.findSome?_eq_none_iff.mpr fun way' hway' => ?_
      rw [hunique way' (List.mem_cons_of_mem _ hway'), hnext]

end Pattern

/-! A substitution step by step. -/

/-- A place in a substitution: what was read, what was written for it, and what is left. -/
@[ext] structure Place (α : Type u) where
  done : List α
  out : List α
  rest : List α

namespace Masking

variable (m : Masking α)

inductive Step (mask : List α) : Place α → Place α → Prop
  | keep {done out rest : List α} {a : α} (h : m.match? done.getLast? (a :: rest) = none) :
    Step mask ⟨done, out, a :: rest⟩ ⟨done ++ [a], out ++ [a], rest⟩
  | hide {done out text lead value rest : List α}
    (h : m.match? done.getLast? text = some (lead, value, rest)) :
    Step mask ⟨done, out, text⟩ ⟨done ++ (lead ++ value), out ++ (lead ++ mask), rest⟩

/-- The places that a substitution comes to. -/
abbrev Reaches (mask : List α) : Place α → Place α → Prop := Relation.ReflTransGen (m.Step mask)

/-- The places of a substitution in a text. -/
abbrev Visits (mask text : List α) : Place α → Prop := m.Reaches mask ⟨[], [], text⟩

variable {m} {mask : List α} {before : Option α} {text lead value rest : List α} {p q : Place α}

theorem ways_of_match? (h : m.match? before text = some (lead, value, rest)) :
    ∃ left, (lead, left) ∈ m.lead.ways before text ∧
      (value, rest) ∈ m.value.ways (lastOf before lead) left := by
  have hmem := List.mem_of_mem_head? (Option.mem_def.mpr h)
  obtain ⟨⟨lead', left⟩, hlead, hmem⟩ := List.mem_flatMap.mp hmem
  obtain ⟨⟨value', rest'⟩, hvalue, heq⟩ := List.mem_map.mp hmem
  obtain ⟨rfl, rfl, rfl⟩ : lead' = lead ∧ value' = value ∧ rest' = rest := by simpa using heq
  exact ⟨left, hlead, hvalue⟩

theorem append_of_match? (h : m.match? before text = some (lead, value, rest)) :
    lead ++ (value ++ rest) = text := by
  obtain ⟨left, hlead, hvalue⟩ := ways_of_match? h
  have hfront := m.lead.append_of_mem_ways hlead
  have hback := m.value.append_of_mem_ways hvalue
  simp only at hfront hback
  rw [hback, hfront]

theorem match?_eq_firstThen :
    m.match? before text = m.lead.firstThen before text fun way =>
      m.value.firstThen (lastOf before way.1) way.2 fun next => some (way.1, next.1, next.2) := by
  rw [match?, List.head?_flatMap, Pattern.firstThen]
  congr 1
  funext way
  rw [List.head?_map, Pattern.firstThen]
  cases m.value.ways (lastOf before way.1) way.2 <;> rfl

theorem value_ne_of_match? (h : m.match? before text = some (lead, value, rest)) : value ≠ [] := by
  obtain ⟨left, -, hvalue⟩ := ways_of_match? h
  exact m.value_ne _ _ _ hvalue

theorem match?_nil : m.match? before [] = none := by
  cases h : m.match? before [] with
  | none => rfl
  | some found =>
    obtain ⟨lead, value, rest⟩ := found
    have htext := append_of_match? h
    have hvalue := value_ne_of_match? h
    simp_all

theorem subFrom_skip (before : Option α) (front rest : List α) :
    m.subFrom mask before front.length (front ++ rest) =
      m.subFrom mask (lastOf before front) 0 rest := by
  induction front generalizing before with
  | nil => rfl
  | cons a front ih =>
    rw [List.length_cons, List.cons_append, subFrom, ih]
    congr 1
    rw [show a :: front = [a] ++ front from rfl, ← lastOf_append]
    rfl

theorem subFrom_keep {a : α} (h : m.match? before (a :: rest) = none) :
    m.subFrom mask before 0 (a :: rest) = a :: m.subFrom mask (some a) 0 rest := by
  rw [subFrom, h]

theorem subFrom_hide (h : m.match? before text = some (lead, value, rest)) :
    m.subFrom mask before 0 text =
      lead ++ mask ++ m.subFrom mask (lastOf before (lead ++ value)) 0 rest := by
  have htext := append_of_match? h
  have hvalue := value_ne_of_match? h
  obtain ⟨a, more, hread⟩ : ∃ a more, lead ++ value = a :: more :=
    List.exists_cons_of_ne_nil (by simp [hvalue])
  have hcons : a :: (more ++ rest) = text := by
    rw [← List.cons_append, ← hread, List.append_assoc, htext]
  have hlength : lead.length + value.length - 1 = more.length := by
    have := congrArg List.length hread
    simp only [List.length_append, List.length_cons] at this
    omega
  have hskip : m.subFrom mask before 0 text =
      lead ++ mask ++ m.subFrom mask (some a) (lead.length + value.length - 1) (more ++ rest) := by
    rw [← hcons] at h ⊢
    rw [subFrom, h]
  rw [hskip, hlength, subFrom_skip, hread, show a :: more = [a] ++ more from rfl, ← lastOf_append]
  rfl

/-- What a step leaves to write is what the substitution still had to write. -/
theorem subFrom_of_step (h : m.Step mask p q) :
    p.out ++ m.subFrom mask p.done.getLast? 0 p.rest =
      q.out ++ m.subFrom mask q.done.getLast? 0 q.rest := by
  cases h with
  | keep h => simp [subFrom_keep h]
  | @hide done out text lead value rest h =>
    have hlast : lastOf done.getLast? (lead ++ value) = (done ++ (lead ++ value)).getLast? := by
      simp [lastOf, List.getLast?_append]
    simp only [subFrom_hide h, hlast, List.append_assoc]

theorem subFrom_of_reaches (h : m.Reaches mask p q) :
    p.out ++ m.subFrom mask p.done.getLast? 0 p.rest =
      q.out ++ m.subFrom mask q.done.getLast? 0 q.rest := by
  induction h with
  | refl => rfl
  | tail _ hstep ih => exact ih.trans (subFrom_of_step hstep)

/-- At every place, the result is what was written so far and the rest of the substitution. -/
theorem sub_of_visits (h : m.Visits mask text p) :
    m.sub mask text = p.out ++ m.subFrom mask p.done.getLast? 0 p.rest := by
  have := subFrom_of_reaches h
  simpa [sub] using this

theorem append_of_step (h : m.Step mask p q) : p.done ++ p.rest = q.done ++ q.rest := by
  cases h with
  | keep _ => simp
  | hide h => simp [← append_of_match? h]

theorem append_of_reaches (h : m.Reaches mask p q) : p.done ++ p.rest = q.done ++ q.rest := by
  induction h with
  | refl => rfl
  | tail _ hstep ih => exact ih.trans (append_of_step hstep)

theorem append_of_visits (h : m.Visits mask text p) : p.done ++ p.rest = text :=
  (append_of_reaches h).symm

theorem length_lt_of_step (h : m.Step mask p q) : q.rest.length < p.rest.length := by
  cases h with
  | keep _ => simp
  | hide h =>
    have hlength := congrArg List.length (append_of_match? h)
    have hvalue := List.length_pos_of_ne_nil (value_ne_of_match? h)
    simp only [List.length_append] at hlength ⊢
    omega

/-- Letters at which no match begins are kept. -/
theorem reaches_keep {done out : List α} (kept rest : List α)
    (h : ∀ front a back, kept = front ++ a :: back →
      m.match? (done ++ front).getLast? (a :: (back ++ rest)) = none) :
    m.Reaches mask ⟨done, out, kept ++ rest⟩ ⟨done ++ kept, out ++ kept, rest⟩ := by
  induction kept generalizing done out with
  | nil => simpa using Relation.ReflTransGen.refl
  | cons a kept ih =>
    have hfirst := h [] a kept rfl
    rw [List.append_nil] at hfirst
    have hrest := @ih (done ++ [a]) (out ++ [a]) fun front b back hkept => by
      have := h (a :: front) b back (by rw [hkept, List.cons_append])
      simpa using this
    have hstep : m.Step mask ⟨done, out, a :: (kept ++ rest)⟩
        ⟨done ++ [a], out ++ [a], kept ++ rest⟩ :=
      .keep hfirst
    simpa using Relation.ReflTransGen.head hstep hrest

/-- A match that reads beyond a place in the text, so that the substitution never stands there. -/
structure Crosses (m : Masking α) (mask front back : List α) (p : Place α)
    (lead value rest : List α) : Prop where
  visits : m.Visits mask (front ++ back) p
  found : m.match? p.done.getLast? p.rest = some (lead, value, rest)
  starts : p.done.length < front.length
  ends : rest.length < back.length

/-- A substitution comes to a place in the text, or one of its matches reads beyond it. -/
theorem visits_or_crosses (front back : List α) :
    (∃ out, m.Visits mask (front ++ back) ⟨front, out, back⟩) ∨
      ∃ p lead value rest, m.Crosses mask front back p lead value rest := by
  suffices hfrom : ∀ n (p : Place α), p.rest.length ≤ n → m.Visits mask (front ++ back) p →
      p.done.length ≤ front.length →
      (∃ out, m.Visits mask (front ++ back) ⟨front, out, back⟩) ∨
        ∃ p lead value rest, m.Crosses mask front back p lead value rest from
    hfrom _ ⟨[], [], front ++ back⟩ (Nat.le_refl _) .refl (Nat.zero_le _)
  intro n
  induction n with
  | zero =>
    intro p hrest hvisits hdone
    have htext := append_of_visits hvisits
    have hlength := congrArg List.length htext
    simp only [List.length_append] at hlength
    have heq : p.done.length = front.length := by omega
    obtain ⟨hfront, hback⟩ := List.append_inj htext heq
    subst hfront hback
    exact .inl ⟨p.out, hvisits⟩
  | succ n ih =>
    intro p hrest hvisits hdone
    have htext := append_of_visits hvisits
    rcases Nat.lt_or_eq_of_le hdone with hlt | heq
    · cases hmatch : m.match? p.done.getLast? p.rest with
      | none =>
        obtain ⟨done, out, rest⟩ := p
        cases rest with
        | nil =>
          have hlength := congrArg List.length htext
          simp only [List.append_nil, List.length_append] at hlength hlt
          omega
        | cons a rest =>
          refine ih ⟨done ++ [a], out ++ [a], rest⟩ ?_ (hvisits.tail (.keep hmatch)) ?_
          · simpa using hrest
          · simpa using Nat.succ_le_of_lt hlt
      | some found =>
        obtain ⟨lead, value, rest⟩ := found
        have hstep : m.Step mask p ⟨p.done ++ (lead ++ value), p.out ++ (lead ++ mask), rest⟩ :=
          .hide hmatch
        by_cases hends : rest.length < back.length
        · exact .inr ⟨p, lead, value, rest, hvisits, hmatch, hlt, hends⟩
        · have hshorter := length_lt_of_step hstep
          refine ih _ (by simp only at hshorter ⊢; omega) (hvisits.tail hstep) ?_
          have hlength := congrArg List.length
            ((append_of_step hstep).symm.trans htext)
          simp only [List.length_append] at hlength ⊢
          omega
    · obtain ⟨hfront, hback⟩ := List.append_inj htext heq
      subst hfront hback
      exact .inl ⟨p.out, hvisits⟩

/-- A match that reads beyond a place does so in its lead or in its value. -/
theorem Crosses.in_lead_or_value {front back : List α}
    (h : m.Crosses mask front back p lead value rest) :
    ∃ ahead, front = p.done ++ ahead ∧ ahead ≠ [] ∧
      ((∃ more, more ≠ [] ∧ lead = ahead ++ more ∧ back = more ++ (value ++ rest)) ∨
        ∃ inside beyond, beyond ≠ [] ∧ ahead = lead ++ inside ∧ value = inside ++ beyond ∧
          back = beyond ++ rest) := by
  have htext : p.done ++ (lead ++ (value ++ rest)) = front ++ back := by
    rw [append_of_match? h.found, append_of_visits h.visits]
  have hstarts := h.starts
  have hends := h.ends
  obtain ⟨ahead, rfl, hahead⟩ : ∃ ahead, front = p.done ++ ahead ∧
      lead ++ (value ++ rest) = ahead ++ back := by
    rcases List.append_eq_append_iff.mp htext with ⟨more, rfl, hmore⟩ | ⟨more, hdone, -⟩
    · exact ⟨more, rfl, hmore⟩
    · rw [hdone, List.length_append] at hstarts
      omega
  have hne : ahead ≠ [] := by
    rintro rfl
    simp at hstarts
  refine ⟨ahead, rfl, hne, ?_⟩
  rcases List.append_eq_append_iff.mp hahead with ⟨inside, rfl, hinside⟩ | ⟨more, rfl, hmore⟩
  · rcases List.append_eq_append_iff.mp hinside with
      ⟨beyond, hvalue, hbeyond⟩ | ⟨beyond, hvalue, hbeyond⟩
    · rw [hbeyond, List.length_append] at hends
      omega
    · refine .inr ⟨inside, beyond, ?_, rfl, hvalue, hbeyond⟩
      rintro rfl
      simp [hbeyond] at hends
  · by_cases hmorene : more = []
    · subst hmorene
      refine .inr ⟨[], value, value_ne_of_match? h.found, by simp, rfl, by simpa using hmore⟩
    · exact .inl ⟨more, hmorene, rfl, hmore⟩

/-- The last letter of what was read was kept, or it was the last of a hidden value. -/
theorem last_step {done out : List α} {a : α} (h : m.Visits mask text ⟨done ++ [a], out, rest⟩) :
    (∃ out', out = out' ++ [a] ∧ m.Visits mask text ⟨done, out', a :: rest⟩) ∨
      ∃ p lead value, m.Visits mask text p ∧
        m.match? p.done.getLast? p.rest = some (lead, value, rest) ∧
        p.done ++ (lead ++ value) = done ++ [a] ∧ out = p.out ++ (lead ++ mask) := by
  rcases Relation.ReflTransGen.cases_tail h with h | ⟨p, hp, hstep⟩
  · have := congrArg Place.done h
    simp at this
  · generalize hq : (⟨done ++ [a], out, rest⟩ : Place α) = q at hstep
    cases hstep with
    | @keep done' out' rest' b hkeep =>
      obtain ⟨hdone, rfl, rfl⟩ := Place.mk.inj hq
      obtain ⟨rfl, hab⟩ := List.append_inj' hdone rfl
      obtain rfl : a = b := by simpa using hab
      exact .inl ⟨out', rfl, hp⟩
    | @hide done' out' text' lead value rest' hmatch =>
      obtain ⟨hdone, rfl, rfl⟩ := Place.mk.inj hq
      exact .inr ⟨_, lead, value, hp, hmatch, hdone.symm, rfl⟩

/-- Nothing is written before something is read. -/
theorem out_eq_nil {out : List α} (h : m.Visits mask text ⟨[], out, rest⟩) : out = [] := by
  rcases Relation.ReflTransGen.cases_tail h with h | ⟨p, -, hstep⟩
  · exact congrArg Place.out h
  · generalize hq : (⟨[], out, rest⟩ : Place α) = q at hstep
    cases hstep with
    | keep _ =>
      have := congrArg Place.done hq
      simp at this
    | hide hmatch =>
      have := congrArg Place.done hq
      have hvalue := value_ne_of_match? hmatch
      simp_all

/-- What is written after the last mask was read just so. -/
theorem suffix_of_visits {front tail : List α} {z : α} (hmask : mask = front ++ [z])
    (htail : z ∉ tail) (h : m.Visits mask text p) (hout : tail <:+ p.out) : tail <:+ p.done := by
  induction h generalizing tail with
  | refl => simpa using hout
  | tail hp hstep ih =>
    rcases List.eq_nil_or_concat' tail with rfl | ⟨init, c, rfl⟩
    · exact List.nil_suffix
    · cases hstep with
      | @keep done out rest a _ =>
        obtain ⟨before, heq⟩ := hout
        have heq : (before ++ init) ++ [c] = out ++ [a] := by simpa using heq
        obtain ⟨hout, hc⟩ := List.append_inj' heq rfl
        obtain ⟨before', hdone⟩ := ih (fun hmem => htail (by simp [hmem])) ⟨before, hout⟩
        exact ⟨before', by rw [← List.append_assoc, hdone, hc]⟩
      | hide _ =>
        obtain ⟨before, heq⟩ := hout
        have hlast := congrArg List.getLast? heq
        simp [hmask, ← List.append_assoc] at hlast
        exact absurd (by simp [hlast]) htail

end Masking

end ConfigBackup.SearchPatterns
