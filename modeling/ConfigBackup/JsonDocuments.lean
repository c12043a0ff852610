import ConfigBackup.JsonText

/-!
JSON documents. A value is written with an indentation and with sorted keys, and what is
written is read as the value with its keys sorted.
-/

namespace ConfigBackup.JsonDocuments

open CodePoints JsonText JsonValues

variable {F : Type}

section Writing

def newline (level : ℕ) : PyText := ofChar '\n' :: List.replicate (2 * level) (ofChar ' ')

/-- The texts of the items of an array or object, between its brackets. -/
def bracketed (opening closing : Char) (level : ℕ) : List PyText → PyText
  | [] => [ofChar opening, ofChar closing]
  | text :: rest =>
    ofChar opening :: newline (level + 1) ++ text ++
      rest.flatMap (fun text => ofChar ',' :: newline (level + 1) ++ text) ++
        newline level ++ [ofChar closing]

def memberText (member : PyText × PyText) : PyText :=
  quoted member.1 ++ ofString ": " ++ member.2

mutual

def dumpsAt (format : FloatFormat F) (level : ℕ) : Json F → PyText
  | .scalar s => scalarText format s
  | .arr items => bracketed '[' ']' level (dumpsItems format (level + 1) items)
  | .obj items =>
    bracketed '{' '}' level ((sortByKey (dumpsMembers format (level + 1) items)).map memberText)

def dumpsItems (format : FloatFormat F) (level : ℕ) : List (Json F) → List PyText
  | [] => []
  | v :: rest => dumpsAt format level v :: dumpsItems format level rest

def dumpsMembers (format : FloatFormat F) (level : ℕ) :
    List (PyText × Json F) → List (PyText × PyText)
  | [] => []
  | (key, v) :: rest => (key, dumpsAt format level v) :: dumpsMembers format level rest

end

/-- `json.dumps(value, ensure_ascii=False, indent=2, sort_keys=True)`. -/
def dumps (format : FloatFormat F) (v : Json F) : PyText := dumpsAt format 0 v

end Writing

section Reading

def isSpace (p : CodePoint) : Bool :=
  p == ofChar ' ' || p == ofChar '\t' || p == ofChar '\n' || p == ofChar '\r'

def skipSpace (text : PyText) : PyText := text.dropWhile isSpace

/-- What follows the character, if the text begins with it. -/
def after (c : Char) : PyText → Option PyText
  | [] => none
  | p :: rest => if p = ofChar c then some rest else none

/-- What follows an item: the closing bracket, or a comma and another item. -/
def afterItem (closing : Char) (text : PyText) : Option (Bool × PyText) :=
  match after closing (skipSpace text) with
  | some rest => some (true, rest)
  | none => (after ',' (skipSpace text)).map fun rest => (false, skipSpace rest)

/-- The key of a member, and the text of its value. -/
def readKey (text : PyText) : Option (PyText × PyText) :=
  match after '"' text with
  | none => none
  | some rest =>
    match readString 0 rest with
    | none => none
    | some (key, rest) =>
      (after ':' (skipSpace rest)).map fun rest => (key, skipSpace rest)

/-- `dict[key] = v`. -/
def setItem {α : Type} (items : List (PyText × α)) (key : PyText) (v : α) : List (PyText × α) :=
  if key ∈ items.map Prod.fst then items.map fun item => if item.1 = key then (key, v) else item
  else items ++ [(key, v)]

/-- `dict(members)`. -/
def dictOf {α : Type} (members : List (PyText × α)) : List (PyText × α) :=
  members.foldl (fun items member => setItem items member.1 member.2) []

/-- Items and the text behind their closing bracket. -/
def readSeparated {α : Type} (readItem : PyText → Option (α × PyText)) (closing : Char) :
    ℕ → PyText → Option (List α × PyText)
  | 0, _ => none
  | fuel + 1, text =>
    match readItem text with
    | none => none
    | some (item, rest) =>
      match afterItem closing rest with
      | none => none
      | some (true, rest) => some ([item], rest)
      | some (false, rest) =>
        (readSeparated readItem closing fuel rest).map fun (items, rest) => (item :: items, rest)

/-- What stands behind an opening bracket. -/
def readBracketed {α : Type} (readItem : PyText → Option (α × PyText)) (closing : Char)
    (text : PyText) : Option (List α × PyText) :=
  match after closing (skipSpace text) with
  | some rest => some ([], rest)
  | none => readSeparated readItem closing (text.length + 1) (skipSpace text)

def readMember {α : Type} (readItem : PyText → Option (α × PyText)) (text : PyText) :
    Option ((PyText × α) × PyText) :=
  match readKey text with
  | none => none
  | some (key, rest) => (readItem rest).map fun (v, rest) => ((key, v), rest)

/-- A value and the text behind it, as far as arrays and objects are not nested deeper than
the first argument. -/
def readValue (format : FloatFormat F) : ℕ → PyText → Option (Json F × PyText)
  | 0, _ => none
  | depth + 1, text =>
    match after '[' text with
    | some rest =>
      (readBracketed (readValue format depth) ']' rest).map fun (items, rest) =>
        (.arr items, rest)
    | none =>
      match after '{' text with
      | some rest =>
        (readBracketed (readMember (readValue format depth)) '}' rest).map fun (members, rest) =>
          (.obj (dictOf members), rest)
      | none => (readScalar format text).map fun (s, rest) => (.scalar s, rest)

/-- `json.loads(text)`, of which `none` is the `JSONDecodeError`. -/
def loads (format : FloatFormat F) (text : PyText) : Option (Json F) :=
  if text.head? = some (ofChar '\ufeff') then none
  else
    match readValue format (text.length + 1) (skipSpace text) with
    | none => none
    | some (v, rest) => if skipSpace rest = [] then some v else none

end Reading

section Order

variable (format : FloatFormat F)

theorem dumpsItems_eq (level : ℕ) (items : List (Json F)) :
    dumpsItems format level items = items.map (dumpsAt format level) := by
  induction items with
  | nil => rfl
  | cons v rest ih => rw [dumpsItems, ih, List.map_cons]

theorem dumpsMembers_eq (level : ℕ) (items : List (PyText × Json F)) :
    dumpsMembers format level items = items.map fun item => (item.1, dumpsAt format level item.2) := by
  induction items with
  | nil => rfl
  | cons item rest ih => rw [dumpsMembers, ih, List.map_cons]

theorem sortByKey_dumpsMembers (level : ℕ) (items : List (PyText × Json F)) :
    sortByKey (dumpsMembers format level items) = dumpsMembers format level (sortByKey items) := by
  rw [dumpsMembers_eq, dumpsMembers_eq]
  exact sortByKey_map (fun item => (item.1, dumpsAt format level item.2)) (fun _ => rfl) items

/-- The order of the keys is no part of a document. -/
theorem dumpsAt_sorted (level : ℕ) (v : Json F) :
    dumpsAt format level v.sorted = dumpsAt format level v := by
  induction v using Json.induction generalizing level with
  | scalar s => rfl
  | arr items ih =>
    rw [Json.sorted, dumpsAt, dumpsAt, dumpsItems_eq, dumpsItems_eq, sortedList_eq, List.map_map]
    exact congrArg _ (List.map_congr_left fun v hv => ih v hv (level + 1))
  | obj items ih =>
    rw [Json.sorted, dumpsAt, dumpsAt, ← sortByKey_dumpsMembers, sortByKey_sortByKey,
      dumpsMembers_eq, dumpsMembers_eq, sortedItems_eq, List.map_map]
    refine congrArg (fun texts => bracketed '{' '}' level ((sortByKey texts).map memberText)) ?_
    exact List.map_congr_left fun item hitem =>
      congrArg (Prod.mk item.1) (ih item.1 item.2 hitem (level + 1))

/-- Values with the same nodes have one document. -/
theorem dumps_eq_of_agree {v w : Json F} (hv : v.Valid) (hw : w.Valid)
    (h : Agree (fun _ => True) v w) : dumps format v = dumps format w := by
  unfold dumps
  rw [← dumpsAt_sorted, sorted_eq_of_agree hv hw h, dumpsAt_sorted]

end Order

section Dictionaries

variable {α : Type} {items members : List (PyText × α)} {key : PyText} {v : α}

theorem keys_setItem : (setItem items key v).map Prod.fst =
    if key ∈ items.map Prod.fst then items.map Prod.fst else items.map Prod.fst ++ [key] := by
  unfold setItem
  split
  · rw [List.map_map]
    refine List.map_congr_left fun item _ => ?_
    by_cases hkey : item.1 = key
    · rw [Function.comp_apply, if_pos hkey, hkey]
    · rw [Function.comp_apply, if_neg hkey]
  · rw [List.map_append]
    rfl

theorem nodup_setItem (h : (items.map Prod.fst).Nodup) :
    ((setItem items key v).map Prod.fst).Nodup := by
  rw [keys_setItem]
  split
  · exact h
  · rename_i hkey
    exact List.Nodup.append h (List.nodup_singleton key) (by simpa using hkey)

theorem mem_setItem {item : PyText × α} (h : item ∈ setItem items key v) :
    item = (key, v) ∨ item ∈ items := by
  unfold setItem at h
  split at h
  · obtain ⟨other, hother, rfl⟩ := List.mem_map.mp h
    split
    · exact Or.inl rfl
    · exact Or.inr hother
  · rcases List.mem_append.mp h with h | h
    · exact Or.inr h
    · exact Or.inl (List.mem_singleton.mp h)

/-- A dictionary has each key once, and its items are among the members that it is made of. -/
theorem dictOf_spec (members : List (PyText × α)) :
    ((dictOf members).map Prod.fst).Nodup ∧ ∀ item ∈ dictOf members, item ∈ members := by
  have hfold : ∀ items : List (PyText × α), (items.map Prod.fst).Nodup →
      ((members.foldl (fun items member => setItem items member.1 member.2) items).map
        Prod.fst).Nodup ∧
      ∀ item ∈ members.foldl (fun items member => setItem items member.1 member.2) items,
        item ∈ items ∨ item ∈ members := by
    induction members with
    | nil => exact fun items h => ⟨h, fun item hitem => Or.inl hitem⟩
    | cons member rest ih =>
      intro items h
      obtain ⟨hnodup, hmem⟩ := ih (setItem items member.1 member.2) (nodup_setItem h)
      refine ⟨hnodup, fun item hitem => ?_⟩
      rcases hmem item hitem with hitem | hitem
      · rcases mem_setItem hitem with rfl | hitem
        · exact Or.inr List.mem_cons_self
        · exact Or.inl hitem
      · exact Or.inr (List.mem_cons_of_mem _ hitem)
  obtain ⟨hnodup, hmem⟩ := hfold [] List.nodup_nil
  refine ⟨hnodup, fun item hitem => ?_⟩
  rcases hmem item hitem with hitem | hitem
  · cases hitem
  · exact hitem

/-- Members of different keys are a dictionary. -/
theorem dictOf_eq_self (h : (members.map Prod.fst).Nodup) : dictOf members = members := by
  have hfold : ∀ front : List (PyText × α), ((front ++ members).map Prod.fst).Nodup →
      members.foldl (fun items member => setItem items member.1 member.2) front =
        front ++ members := by
    clear h
    induction members with
    | nil => exact fun front _ => (List.append_nil front).symm
    | cons member rest ih =>
      intro front h
      have hnew : member.1 ∉ front.map Prod.fst := by
        rw [List.map_append, List.map_cons, List.nodup_append] at h
        exact fun hmem => h.2.2 _ hmem _ List.mem_cons_self rfl
      have hset : setItem front member.1 member.2 = front ++ [member] := if_neg hnew
      rw [List.foldl_cons, hset, ih (front ++ [member]) (by simpa using h), List.append_assoc]
      rfl
  exact hfold [] h

end Dictionaries

section Fuel

variable {text rest : PyText} {closing c : Char} {last : Bool}

theorem length_skipSpace (text : PyText) : (skipSpace text).length ≤ text.length :=
  (List.dropWhile_sublist isSpace).length_le

theorem length_after (h : after c text = some rest) : rest.length < text.length := by
  cases text with
  | nil => cases h
  | cons p tail =>
    rw [after] at h
    split at h
    · obtain rfl := Option.some.inj h
      exact Nat.lt_succ_self _
    · cases h

theorem length_afterItem (h : afterItem closing text = some (last, rest)) :
    rest.length < text.length := by
  have hspace := length_skipSpace text
  unfold afterItem at h
  split at h
  · rename_i hclosing
    obtain ⟨-, rfl⟩ := Prod.mk.inj (Option.some.inj h)
    have hlt := length_after hclosing
    omega
  · obtain ⟨tail, hcomma, heq⟩ := Option.map_eq_some_iff.mp h
    obtain ⟨-, rfl⟩ := Prod.mk.inj heq
    have hlt := length_after hcomma
    have hle := length_skipSpace tail
    omega

theorem length_readKey {key : PyText} (h : readKey text = some (key, rest)) :
    rest.length < text.length := by
  unfold readKey at h
  cases hquote : after '"' text with
  | none =>
    rw [hquote] at h
    cases h
  | some tail =>
    rw [hquote] at h
    dsimp only at h
    cases hstring : readString 0 tail with
    | none =>
      rw [hstring] at h
      cases h
    | some found =>
      obtain ⟨s, behind⟩ := found
      rw [hstring] at h
      obtain ⟨value, hcolon, heq⟩ := Option.map_eq_some_iff.mp h
      obtain ⟨-, rfl⟩ := Prod.mk.inj heq
      have hopened := length_after hquote
      have hread := length_readString hstring
      have hspace := length_skipSpace behind
      have hnamed := length_after hcolon
      have hle := length_skipSpace value
      omega

/-- What is read is good and takes some of the text. -/
def Sound {α : Type} (good : α → Prop) (readItem : PyText → Option (α × PyText)) : Prop :=
  ∀ text item rest, readItem text = some (item, rest) → good item ∧ rest.length < text.length

variable {α : Type} {good : α → Prop} {readItem readItem' : PyText → Option (α × PyText)}

theorem Sound.separated (h : Sound good readItem) (closing : Char) (fuel : ℕ) :
    Sound (fun items => ∀ item ∈ items, good item) (readSeparated readItem closing fuel) := by
  induction fuel with
  | zero => exact nofun
  | succ fuel ih =>
    intro text items rest hread
    rw [readSeparated] at hread
    split at hread
    · cases hread
    · rename_i item tail hitem
      obtain ⟨hgood, hlt⟩ := h _ _ _ hitem
      split at hread
      · cases hread
      · rename_i behind hafter
        obtain ⟨rfl, rfl⟩ := Prod.mk.inj (Option.some.inj hread)
        have hclosed := length_afterItem hafter
        exact ⟨List.forall_mem_singleton.mpr hgood, by omega⟩
      · rename_i behind hafter
        obtain ⟨⟨others, behind'⟩, hothers, heq⟩ := Option.map_eq_some_iff.mp hread
        obtain ⟨rfl, rfl⟩ := Prod.mk.inj heq
        have hcomma := length_afterItem hafter
        obtain ⟨hall, hle⟩ := ih _ _ _ hothers
        exact ⟨List.forall_mem_cons.mpr ⟨hgood, hall⟩, by omega⟩

theorem Sound.bracketed (h : Sound good readItem) (closing : Char) :
    Sound (fun items => ∀ item ∈ items, good item) (readBracketed readItem closing) := by
  intro text items rest hread
  have hspace := length_skipSpace text
  unfold readBracketed at hread
  split at hread
  · rename_i behind hclosed
    obtain ⟨rfl, rfl⟩ := Prod.mk.inj (Option.some.inj hread)
    have hlt := length_after hclosed
    exact ⟨nofun, by omega⟩
  · obtain ⟨hall, hlt⟩ := h.separated closing (text.length + 1) _ _ _ hread
    exact ⟨hall, by omega⟩

theorem Sound.member (h : Sound good readItem) :
    Sound (fun member => good member.2) (readMember readItem) := by
  intro text member rest hread
  unfold readMember at hread
  split at hread
  · cases hread
  · rename_i key tail hkey
    obtain ⟨⟨v, behind⟩, hvalue, heq⟩ := Option.map_eq_some_iff.mp hread
    obtain ⟨rfl, rfl⟩ := Prod.mk.inj heq
    have hnamed := length_readKey hkey
    obtain ⟨hgood, hlt⟩ := h _ _ _ hvalue
    exact ⟨hgood, by omega⟩

/-- Every value that is read is valid. -/
theorem sound_readValue (format : FloatFormat F) (depth : ℕ) :
    Sound Json.Valid (readValue format depth) := by
  induction depth with
  | zero => exact nofun
  | succ depth ih =>
    intro text v rest hread
    rw [readValue] at hread
    split at hread
    · rename_i tail harray
      obtain ⟨⟨items, behind⟩, hitems, heq⟩ := Option.map_eq_some_iff.mp hread
      obtain ⟨rfl, rfl⟩ := Prod.mk.inj heq
      have hopened := length_after harray
      obtain ⟨hall, hlt⟩ := ih.bracketed ']' _ _ _ hitems
      exact ⟨.arr hall, by omega⟩
    · split at hread
      · rename_i tail hobject
        obtain ⟨⟨members, behind⟩, hmembers, heq⟩ := Option.map_eq_some_iff.mp hread
        obtain ⟨rfl, rfl⟩ := Prod.mk.inj heq
        have hopened := length_after hobject
        obtain ⟨hall, hlt⟩ := ih.member.bracketed '}' _ _ _ hmembers
        obtain ⟨hkeys, hmem⟩ := dictOf_spec members
        exact ⟨.obj hkeys fun item hitem => hall item (hmem item hitem), by omega⟩
      · obtain ⟨⟨s, behind⟩, hscalar, heq⟩ := Option.map_eq_some_iff.mp hread
        obtain ⟨rfl, rfl⟩ := Prod.mk.inj heq
        exact ⟨.scalar s, length_readScalar hscalar⟩

/-- Whatever is parsed has each key of an object once. -/
theorem valid_of_loads {format : FloatFormat F} {v : Json F} (h : loads format text = some v) :
    v.Valid := by
  unfold loads at h
  split at h
  · cases h
  · split at h
    · cases h
    · rename_i w behind hvalue
      split at h
      · obtain rfl := Option.some.inj h
        exact (sound_readValue format _ _ _ _ hvalue).1
      · cases h

/-- The items of a short text are read by whatever reads short texts. -/
theorem readSeparated_congr (h : Sound good readItem) {bound : ℕ}
    (hsame : ∀ text : PyText, text.length ≤ bound → readItem text = readItem' text)
    (closing : Char) (fuel : ℕ) (htext : text.length ≤ bound) :
    readSeparated readItem closing fuel text = readSeparated readItem' closing fuel text := by
  induction fuel generalizing text with
  | zero => rfl
  | succ fuel ih =>
    rw [readSeparated, readSeparated, ← hsame text htext]
    cases hitem : readItem text with
    | none => rfl
    | some found =>
      obtain ⟨item, tail⟩ := found
      have hlt := (h _ _ _ hitem).2
      dsimp only
      cases hafter : afterItem closing tail with
      | none => rfl
      | some found =>
        obtain ⟨last, behind⟩ := found
        have hle := length_afterItem hafter
        cases last with
        | true => rfl
        | false =>
          dsimp only
          rw [ih (by omega)]

theorem readBracketed_congr (h : Sound good readItem) {bound : ℕ}
    (hsame : ∀ text : PyText, text.length ≤ bound → readItem text = readItem' text)
    (closing : Char) (htext : text.length ≤ bound) :
    readBracketed readItem closing text = readBracketed readItem' closing text := by
  have hspace := length_skipSpace text
  unfold readBracketed
  rw [readSeparated_congr h hsame closing (text.length + 1) (by omega)]

theorem readMember_congr {bound : ℕ}
    (hsame : ∀ text : PyText, text.length ≤ bound → readItem text = readItem' text)
    (htext : text.length ≤ bound) : readMember readItem text = readMember readItem' text := by
  unfold readMember
  cases hkey : readKey text with
  | none => rfl
  | some found =>
    obtain ⟨key, tail⟩ := found
    have hlt := length_readKey hkey
    dsimp only
    rw [hsame tail (by omega)]

/-- No list of items is longer than its text. -/
theorem readSeparated_succ (h : Sound good readItem) (closing : Char) {fuel : ℕ}
    (hfuel : text.length < fuel) :
    readSeparated readItem closing (fuel + 1) text = readSeparated readItem closing fuel text := by
  induction fuel generalizing text with
  | zero => omega
  | succ fuel ih =>
    rw [readSeparated, readSeparated]
    cases hitem : readItem text with
    | none => rfl
    | some found =>
      obtain ⟨item, tail⟩ := found
      have hlt := (h _ _ _ hitem).2
      dsimp only
      cases hafter : afterItem closing tail with
      | none => rfl
      | some found =>
        obtain ⟨last, behind⟩ := found
        have hle := length_afterItem hafter
        cases last with
        | true => rfl
        | false =>
          dsimp only
          rw [ih (by omega)]

theorem readSeparated_of_le (h : Sound good readItem) (closing : Char) {fuel fuel' : ℕ}
    (hfuel : text.length < fuel) (hle : fuel ≤ fuel') :
    readSeparated readItem closing fuel' text = readSeparated readItem closing fuel text := by
  obtain ⟨extra, rfl⟩ := Nat.exists_eq_add_of_le hle
  induction extra with
  | zero => rfl
  | succ extra ih =>
    have hextra : text.length < fuel + extra := by omega
    rw [← ih (by omega)]
    exact readSeparated_succ h closing hextra

/-- No value is nested deeper than its text is long. -/
theorem readValue_succ (format : FloatFormat F) {depth : ℕ} (hdepth : text.length < depth) :
    readValue format (depth + 1) text = readValue format depth text := by
  induction depth generalizing text with
  | zero => omega
  | succ depth ih =>
    have hsame : ∀ other : PyText, other.length < text.length →
        readValue format (depth + 1) other = readValue format depth other :=
      fun other hlt => ih (by omega)
    rw [readValue, readValue]
    cases harray : after '[' text with
    | some tail =>
      have hopened := length_after harray
      dsimp only
      rw [readBracketed_congr (sound_readValue format (depth + 1))
        (fun other hother => hsame other (by omega)) ']' (le_refl tail.length)]
    | none =>
      cases hobject : after '{' text with
      | some tail =>
        have hopened := length_after hobject
        dsimp only
        rw [readBracketed_congr (sound_readValue format (depth + 1)).member
          (fun other hother => readMember_congr
            (fun part hpart => hsame part (by omega)) (le_refl other.length)) '}'
          (le_refl tail.length)]
      | none => rfl

theorem readValue_of_le (format : FloatFormat F) {depth depth' : ℕ} (hdepth : text.length < depth)
    (hle : depth ≤ depth') : readValue format depth' text = readValue format depth text := by
  obtain ⟨extra, rfl⟩ := Nat.exists_eq_add_of_le hle
  induction extra with
  | zero => rfl
  | succ extra ih =>
    have hextra : text.length < depth + extra := by omega
    rw [← ih (by omega)]
    exact readValue_succ format hextra

end Fuel

section RoundTrip

variable {α : Type} {readItem : PyText → Option (α × PyText)} {format : FloatFormat F}
  {text rest : PyText} {c closing : Char}

theorem after_cons (c : Char) (rest : PyText) : after c (ofChar c :: rest) = some rest :=
  if_pos rfl

theorem after_of_ne {p : CodePoint} (h : p ≠ ofChar c) : after c (p :: rest) = none := if_neg h

theorem skipSpace_eq_self {p : CodePoint} (h : isSpace p = false) (rest : PyText) :
    skipSpace (p :: rest) = p :: rest := List.dropWhile_cons_of_neg (by simp [h])

theorem skipSpace_newline (level : ℕ) (rest : PyText) :
    skipSpace (newline level ++ rest) = skipSpace rest := by
  have hspaces : ∀ p ∈ newline level, isSpace p = true := by
    intro p hp
    rcases List.mem_cons.mp hp with rfl | hp
    · rfl
    · rw [List.eq_of_mem_replicate hp]
      rfl
  exact List.dropWhile_append_of_pos hspaces

/-- A character that a value or a member can begin with. -/
def startsItem (p : CodePoint) : Bool :=
  p.val < 0x80 && !isSpace p && p != ofChar ']' && p != ofChar '}'

def IsFront (text : PyText) : Prop := ∃ p tail, text = p :: tail ∧ startsItem p = true

theorem startsItem_iff {p : CodePoint} : startsItem p = true ↔
    p.val < 0x80 ∧ isSpace p = false ∧ p ≠ ofChar ']' ∧ p ≠ ofChar '}' := by
  simp [startsItem, and_assoc]

theorem IsFront.skipSpace (h : IsFront text) (rest : PyText) :
    skipSpace (text ++ rest) = text ++ rest := by
  obtain ⟨p, tail, rfl, hp⟩ := h
  exact skipSpace_eq_self (startsItem_iff.mp hp).2.1 (tail ++ rest)

theorem ends_newline (level : ℕ) (rest : PyText) : Ends (newline level ++ rest) := by
  intro p hp
  obtain rfl : ofChar '\n' = p := Option.some.inj hp
  exact ⟨rfl, by decide, by decide, by decide⟩

theorem ends_comma (rest : PyText) : Ends (ofChar ',' :: rest) := by
  intro p hp
  obtain rfl : ofChar ',' = p := Option.some.inj hp
  exact ⟨rfl, by decide, by decide, by decide⟩

theorem afterItem_comma (hclosing : closing = ']' ∨ closing = '}') (level : ℕ)
    (htext : IsFront text) : afterItem closing (ofChar ',' :: (newline level ++ (text ++ rest))) =
      some (false, text ++ rest) := by
  have hne : ofChar ',' ≠ ofChar closing := by
    rcases hclosing with rfl | rfl <;> decide
  unfold afterItem
  rw [skipSpace_eq_self rfl, after_of_ne hne, after_cons, Option.map_some, skipSpace_newline,
    htext.skipSpace]

theorem afterItem_closing (hclosing : closing = ']' ∨ closing = '}') (level : ℕ) :
    afterItem closing (newline level ++ ofChar closing :: rest) = some (true, rest) := by
  have hspace : isSpace (ofChar closing) = false := by
    rcases hclosing with rfl | rfl <;> rfl
  unfold afterItem
  rw [skipSpace_newline, skipSpace_eq_self hspace, after_cons]

/-- The text is read as the item, whatever ends it. -/
structure Reads (readItem : PyText → Option (α × PyText)) (text : PyText) (item : α) : Prop where
  front : IsFront text
  item : ∀ rest, Ends rest → readItem (text ++ rest) = some (item, rest)

/-- Items that are written between brackets are read again. -/
theorem readSeparated_texts (hclosing : closing = ']' ∨ closing = '}') (level : ℕ)
    {first : PyText × α} {others : List (PyText × α)} (hfirst : Reads readItem first.1 first.2)
    (hothers : ∀ other ∈ others, Reads readItem other.1 other.2) (rest : PyText) {fuel : ℕ}
    (hfuel : others.length < fuel) : readSeparated readItem closing fuel
      (first.1 ++ ((others.map Prod.fst).flatMap
        (fun text => ofChar ',' :: newline (level + 1) ++ text) ++
          (newline level ++ ofChar closing :: rest))) =
      some (first.2 :: others.map Prod.snd, rest) := by
  induction others generalizing first fuel with
  | nil =>
    cases fuel with
    | zero => cases hfuel
    | succ fuel =>
      rw [List.map_nil, List.flatMap_nil, List.nil_append, readSeparated,
        hfirst.item _ (ends_newline level _)]
      dsimp only
      rw [afterItem_closing hclosing]
      rfl
  | cons second others ih =>
    cases fuel with
    | zero => cases hfuel
    | succ fuel =>
      have hsecond := hothers second List.mem_cons_self
      have hrest := ih hsecond (fun other hother => hothers other (List.mem_cons_of_mem _ hother))
        (Nat.lt_of_succ_lt_succ hfuel)
      rw [List.map_cons, List.flatMap_cons, readSeparated, List.append_assoc, List.append_assoc,
        List.cons_append, hfirst.item _ (ends_comma _)]
      dsimp only
      rw [afterItem_comma hclosing (level + 1) hsecond.front]
      dsimp only
      rw [hrest]
      rfl

theorem readBracketed_bracketed {good : α → Prop} (hsound : Sound good readItem)
    (hclosing : closing = ']' ∨ closing = '}') (opening : Char) (level : ℕ)
    {items : List (PyText × α)} (h : ∀ item ∈ items, Reads readItem item.1 item.2) :
    ∃ tail, bracketed opening closing level (items.map Prod.fst) = ofChar opening :: tail ∧
      ∀ rest, readBracketed readItem closing (tail ++ rest) = some (items.map Prod.snd, rest) := by
  have hspace : isSpace (ofChar closing) = false := by
    rcases hclosing with rfl | rfl <;> rfl
  cases items with
  | nil =>
    refine ⟨[ofChar closing], rfl, fun rest => ?_⟩
    unfold readBracketed
    rw [List.singleton_append, skipSpace_eq_self hspace, after_cons]
    rfl
  | cons first others =>
    have hfirst := h first List.mem_cons_self
    refine ⟨_, rfl, fun rest => ?_⟩
    have hread := @readSeparated_texts α readItem closing hclosing level first others hfirst
      (fun other hother => h other (List.mem_cons_of_mem _ hother)) rest
    have htext : newline (level + 1) ++ first.1 ++ (others.map Prod.fst).flatMap
        (fun text => ofChar ',' :: newline (level + 1) ++ text) ++ newline level ++
          [ofChar closing] ++ rest = newline (level + 1) ++ (first.1 ++
        ((others.map Prod.fst).flatMap (fun text => ofChar ',' :: newline (level + 1) ++ text) ++
          (newline level ++ ofChar closing :: rest))) := by
      simp only [List.append_assoc, List.singleton_append]
    show readBracketed readItem closing (newline (level + 1) ++ first.1 ++
      (others.map Prod.fst).flatMap (fun text => ofChar ',' :: newline (level + 1) ++ text) ++
        newline level ++ [ofChar closing] ++ rest) = _
    rw [htext]
    generalize (others.map Prod.fst).flatMap
      (fun text => ofChar ',' :: newline (level + 1) ++ text) ++
        (newline level ++ ofChar closing :: rest) = behind at hread ⊢
    have hclosed : after closing (first.1 ++ behind) = none := by
      obtain ⟨p, tail, heq, hp⟩ := hfirst.front
      obtain ⟨-, -, hbracket, hbrace⟩ := startsItem_iff.mp hp
      rw [heq]
      refine after_of_ne ?_
      rcases hclosing with rfl | rfl
      · exact hbracket
      · exact hbrace
    unfold readBracketed
    rw [skipSpace_newline, hfirst.front.skipSpace, hclosed]
    dsimp only
    have hlength : (first.1 ++ behind).length <
        (newline (level + 1) ++ (first.1 ++ behind)).length + 1 := by
      have hsplit := @List.length_append _ (newline (level + 1)) (first.1 ++ behind)
      omega
    rw [← readSeparated_of_le hsound closing hlength (Nat.le_add_right _ (others.length + 1)),
      hread (by omega)]
    rfl

theorem readKey_quoted (key : PyText) (htext : IsFront text) :
    readKey (quoted key ++ ofString ": " ++ text ++ rest) = some (key, text ++ rest) := by
  have hquoted : quoted key ++ ofString ": " ++ text ++ rest = ofChar '"' ::
      (key.flatMap escapePoint ++ quote :: ofChar ':' :: ofChar ' ' :: (text ++ rest)) := by
    simp [quoted, quote, ofString]
  have hcolon : skipSpace (ofChar ':' :: ofChar ' ' :: (text ++ rest)) =
      ofChar ':' :: ofChar ' ' :: (text ++ rest) := skipSpace_eq_self rfl _
  have hvalue : skipSpace (ofChar ' ' :: (text ++ rest)) = text ++ rest :=
    (List.dropWhile_cons_of_pos rfl).trans (htext.skipSpace rest)
  unfold readKey
  rw [hquoted, after_cons]
  dsimp only
  rw [readString_append]
  dsimp only
  rw [hcolon, after_cons, Option.map_some, hvalue]

theorem Reads.member {v : α} (h : Reads readItem text v) (key : PyText) :
    Reads (readMember readItem) (memberText (key, text)) (key, v) := by
  refine ⟨⟨quote, _, rfl, rfl⟩, fun rest hrest => ?_⟩
  unfold readMember memberText
  rw [readKey_quoted key h.front]
  dsimp only
  rw [h.item rest hrest]
  rfl

theorem startsItem_of_isDigit {p : CodePoint} (h : isDigit p = true) :
    startsItem p = true ∧ p ≠ ofChar '[' ∧ p ≠ ofChar '{' := by
  have hne : ∀ c : Char, isDigit (ofChar c) = false → p ≠ ofChar c := by
    rintro c hc rfl
    rw [hc] at h
    cases h
  have hspace : isSpace p = false := by
    simp [isSpace, hne ' ' rfl, hne '\t' rfl, hne '\n' rfl, hne '\r' rfl]
  simp only [isDigit, Bool.and_eq_true, decide_eq_true_eq] at h
  exact ⟨startsItem_iff.mpr ⟨by omega, hspace, hne ']' rfl, hne '}' rfl⟩, hne '[' rfl, hne '{' rfl⟩

/-- The first character of a scalar. -/
theorem scalarText_front (format : FloatFormat F) (s : Scalar F) :
    ∃ p tail, scalarText format s = p :: tail ∧ startsItem p = true ∧ p ≠ ofChar '[' ∧
      p ≠ ofChar '{' := by
  have hnumber : ∀ {whole fraction exponent : PyText}, IsNumber whole fraction exponent →
      ∃ p tail, whole ++ fraction ++ exponent = p :: tail ∧ startsItem p = true ∧
        p ≠ ofChar '[' ∧ p ≠ ofChar '{' := by
    intro whole fraction exponent h
    obtain ⟨p, tail, htext, hp | ⟨rfl, -⟩⟩ := h.front
    · exact ⟨p, tail, htext, startsItem_of_isDigit hp⟩
    · exact ⟨_, tail, htext, rfl, by decide, by decide⟩
  cases s with
  | null => exact ⟨_, _, rfl, rfl, by decide, by decide⟩
  | bool b => cases b <;> exact ⟨_, _, rfl, rfl, by decide, by decide⟩
  | int n =>
    obtain ⟨p, tail, htext, hp⟩ := hnumber (isNumber_intText n)
    rw [List.append_nil, List.append_nil] at htext
    exact ⟨p, tail, htext, hp⟩
  | float x =>
    cases x with
    | finite x =>
      obtain ⟨whole, fraction, exponent, htext, hparts, -⟩ := format.number x
      obtain ⟨p, tail, hfront, hp⟩ := hnumber hparts
      exact ⟨p, tail, htext.trans hfront, hp⟩
    | nan => exact ⟨_, _, rfl, rfl, by decide, by decide⟩
    | infinity => exact ⟨_, _, rfl, rfl, by decide, by decide⟩
    | negInfinity => exact ⟨_, _, rfl, rfl, by decide, by decide⟩
  | str s => exact ⟨quote, _, rfl, rfl, by decide, by decide⟩

/-- A depth that is enough for each item of a list is found for all of them. -/
theorem exists_depth {items : List α} {P : ℕ → α → Prop}
    (h : ∀ item ∈ items, ∃ depth, ∀ depth', depth ≤ depth' → P depth' item) :
    ∃ depth, ∀ depth', depth ≤ depth' → ∀ item ∈ items, P depth' item := by
  induction items with
  | nil => exact ⟨0, fun _ _ => nofun⟩
  | cons item rest ih =>
    obtain ⟨first, hfirst⟩ := h item List.mem_cons_self
    obtain ⟨others, hothers⟩ := ih fun other hother => h other (List.mem_cons_of_mem _ hother)
    refine ⟨max first others, fun depth' hdepth => List.forall_mem_cons.mpr ⟨?_, ?_⟩⟩
    · exact hfirst depth' ((le_max_left _ _).trans hdepth)
    · exact hothers depth' ((le_max_right _ _).trans hdepth)

/-- A document is read as the value with its keys sorted. -/
theorem reads_dumpsAt (format : FloatFormat F) {v : Json F} (hv : v.Valid) (level : ℕ) :
    ∃ depth, ∀ depth', depth ≤ depth' →
      Reads (readValue format depth') (dumpsAt format level v) v.sorted := by
  induction v using Json.induction generalizing level with
  | scalar s =>
    refine ⟨1, fun depth' hdepth => ?_⟩
    obtain ⟨depth, rfl⟩ := Nat.exists_eq_add_of_le' hdepth
    obtain ⟨p, tail, htext, hp, harray, hobject⟩ := scalarText_front format s
    refine ⟨⟨p, tail, htext, hp⟩, fun rest hrest => ?_⟩
    have hscalar := readScalar_append format s hrest
    rw [dumpsAt]
    rw [htext, List.cons_append] at hscalar ⊢
    rw [readValue, after_of_ne harray, after_of_ne hobject, hscalar]
    rfl
  | arr items ih =>
    cases hv with | arr hitems =>
    obtain ⟨bound, hbound⟩ := exists_depth fun v hmem => ih v hmem (hitems v hmem) (level + 1)
    refine ⟨bound + 1, fun depth' hdepth => ?_⟩
    obtain ⟨depth, rfl⟩ := Nat.exists_eq_add_of_le' hdepth
    have hreads : ∀ item ∈ items.map fun v => (dumpsAt format (level + 1) v, v.sorted),
        Reads (readValue format (depth + bound)) item.1 item.2 := by
      intro item hitem
      obtain ⟨v, hmem, rfl⟩ := List.mem_map.mp hitem
      exact hbound (depth + bound) (Nat.le_add_left _ _) v hmem
    obtain ⟨tail, htext, hread⟩ := readBracketed_bracketed (sound_readValue format (depth + bound))
      (Or.inl rfl) '[' level hreads
    rw [List.map_map] at htext
    have hdumps : dumpsAt format level (.arr items) = ofChar '[' :: tail := by
      rw [dumpsAt, dumpsItems_eq, ← htext]
      rfl
    rw [hdumps]
    refine ⟨⟨_, _, rfl, rfl⟩, fun rest _ => ?_⟩
    rw [List.cons_append, ← Nat.add_assoc, readValue, after_cons]
    dsimp only
    rw [hread rest, List.map_map, Json.sorted, sortedList_eq]
    rfl
  | obj items ih =>
    cases hv with | obj hkeys hitems =>
    obtain ⟨bound, hbound⟩ := exists_depth fun item hmem =>
      ih item.1 item.2 hmem (hitems item hmem) (level + 1)
    refine ⟨bound + 1, fun depth' hdepth => ?_⟩
    obtain ⟨depth, rfl⟩ := Nat.exists_eq_add_of_le' hdepth
    have hreads : ∀ member ∈ (sortByKey items).map fun item =>
        (memberText (item.1, dumpsAt format (level + 1) item.2), (item.1, item.2.sorted)),
        Reads (readMember (readValue format (depth + bound))) member.1 member.2 := by
      intro member hmember
      obtain ⟨item, hmem, rfl⟩ := List.mem_map.mp hmember
      exact (hbound (depth + bound) (Nat.le_add_left _ _) item
        ((perm_sortByKey items).subset hmem)).member item.1
    obtain ⟨tail, htext, hread⟩ := readBracketed_bracketed
      (sound_readValue format (depth + bound)).member (Or.inr rfl) '{' level hreads
    rw [List.map_map] at htext
    have hdumps : dumpsAt format level (.obj items) = ofChar '{' :: tail := by
      rw [dumpsAt, sortByKey_dumpsMembers, dumpsMembers_eq, List.map_map, ← htext]
      rfl
    have hsorted : sortByKey (sortedItems items) =
        (sortByKey items).map fun item => (item.1, item.2.sorted) := by
      rw [sortedItems_eq]
      exact sortByKey_map (fun item => (item.1, item.2.sorted)) (fun _ => rfl) items
    have hdict : dictOf (sortByKey (sortedItems items)) = sortByKey (sortedItems items) := by
      refine dictOf_eq_self (((perm_sortByKey _).map Prod.fst).nodup_iff.mpr ?_)
      rwa [keys_sortedItems]
    rw [hdumps]
    refine ⟨⟨_, _, rfl, rfl⟩, fun rest _ => ?_⟩
    rw [List.cons_append, ← Nat.add_assoc, readValue, after_of_ne (by decide), after_cons]
    dsimp only
    rw [hread rest, List.map_map, Json.sorted]
    show some (Json.obj (dictOf ((sortByKey items).map fun item => (item.1, item.2.sorted))), rest) =
      some (Json.obj (sortByKey (sortedItems items)), rest)
    rw [← hsorted, hdict]

/-- A document is parsed as the value with its keys sorted. -/
theorem loads_dumps (format : FloatFormat F) {v : Json F} (hv : v.Valid) :
    loads format (dumps format v) = some v.sorted := by
  obtain ⟨bound, hbound⟩ := reads_dumpsAt format hv 0
  obtain ⟨hfront, hread⟩ := hbound (bound + ((dumps format v).length + 1)) (Nat.le_add_right _ _)
  obtain ⟨p, tail, htext, hp⟩ := hfront
  obtain ⟨hascii, hspace, -⟩ := startsItem_iff.mp hp
  have hbom : (dumps format v).head? ≠ some (ofChar '\ufeff') := by
    unfold dumps
    rw [htext]
    intro h
    rw [Option.some.inj h] at hascii
    exact absurd hascii (by decide)
  have hskip : skipSpace (dumps format v) = dumps format v := by
    unfold dumps
    rw [htext]
    exact skipSpace_eq_self hspace tail
  have hvalue := hread [] nofun
  rw [List.append_nil] at hvalue
  unfold loads
  rw [if_neg hbom, hskip, ← readValue_of_le format (Nat.lt_succ_self _) (Nat.le_add_left _ bound)]
  unfold dumps at hvalue ⊢
  rw [hvalue]
  exact if_pos rfl

/-- A document shows every node of its value. -/
theorem dumps_eq_iff (format : FloatFormat F) {v w : Json F} (hv : v.Valid) (hw : w.Valid) :
    dumps format v = dumps format w ↔ Agree (fun _ => True) v w := by
  constructor
  · intro h
    have hsorted := (loads_dumps format hv).symm.trans
      ((congrArg (loads format) h).trans (loads_dumps format hw))
    exact agree_of_sorted_eq hv hw (Option.some.inj hsorted) _
  · exact dumps_eq_of_agree format hv hw

end RoundTrip

end ConfigBackup.JsonDocuments
