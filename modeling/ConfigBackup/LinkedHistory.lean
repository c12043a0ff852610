import Mathlib.Data.List.Sort
import Mathlib.Tactic.Common

/-!
Histories of keyed entries that point back in time. An entry has a stamp, a
link to a previous entry and a mark whether its content is available; the
history also names its last entry. Entries are appended, relinked over a kept
set, and removed, where a removal clears every link to what it removes.
-/

namespace ConfigBackup.LinkedHistory

structure Entry (τ : Type*) where
  stamp : τ
  previous : Option ℕ
  available : Bool
deriving DecidableEq

structure History (τ : Type*) where
  entry : ℕ → Option (Entry τ)
  last : Option ℕ

namespace History

variable {τ : Type*}

def Available (h : History τ) (k : ℕ) : Prop :=
  ∃ e, h.entry k = some e ∧ e.available = true

def PointsTo (h : History τ) (k p : ℕ) : Prop :=
  ∃ e, h.entry k = some e ∧ e.previous = some p

theorem Available.isSome {h : History τ} {k : ℕ} (hk : h.Available k) : (h.entry k).isSome := by
  obtain ⟨e, he, _⟩ := hk
  rw [he]
  rfl

/-- Remove the entries under the given keys and clear all links to them. -/
def remove (h : History τ) (gone : ℕ → Bool) : History τ where
  entry k := if gone k then none
    else (h.entry k).map (fun e => { e with previous := e.previous.filter (fun p => !gone p) })
  last := h.last.filter (fun l => !gone l)

theorem entry_remove_eq_some {h : History τ} {gone : ℕ → Bool} {k : ℕ} {e : Entry τ} :
    (h.remove gone).entry k = some e ↔ gone k = false ∧ ∃ x, h.entry k = some x ∧
      { x with previous := x.previous.filter (fun p => !gone p) } = e := by
  unfold remove
  cases hgone : gone k <;> simp [hgone]

theorem available_remove {h : History τ} {gone : ℕ → Bool} {k : ℕ} :
    (h.remove gone).Available k ↔ h.Available k ∧ gone k = false := by
  unfold Available
  simp only [entry_remove_eq_some]
  constructor
  · intro ⟨e, ⟨hgone, x, hx, hxe⟩, havail⟩
    subst hxe
    exact ⟨⟨x, hx, havail⟩, hgone⟩
  · intro ⟨⟨x, hx, havail⟩, hgone⟩
    exact ⟨_, ⟨hgone, x, hx, rfl⟩, havail⟩

theorem pointsTo_remove {h : History τ} {gone : ℕ → Bool} {k p : ℕ} :
    (h.remove gone).PointsTo k p ↔ h.PointsTo k p ∧ gone k = false ∧ gone p = false := by
  unfold PointsTo
  simp only [entry_remove_eq_some]
  constructor
  · intro ⟨e, ⟨hgone, x, hx, hxe⟩, hp⟩
    subst hxe
    obtain ⟨hp, hkept⟩ := Option.filter_eq_some_iff.mp hp
    exact ⟨⟨x, hx, hp⟩, hgone, by simpa using hkept⟩
  · intro ⟨⟨x, hx, hp⟩, hgone, hkept⟩
    exact ⟨_, ⟨hgone, x, hx, rfl⟩, Option.filter_eq_some_iff.mpr ⟨hp, by simp [hkept]⟩⟩

variable [LinearOrder τ]

/-- Entry `j` comes before entry `k`: by stamp, then by key. -/
def Precedes (h : History τ) (j k : ℕ) : Prop :=
  ∃ a b, h.entry j = some a ∧ h.entry k = some b ∧
    (a.stamp < b.stamp ∨ (a.stamp = b.stamp ∧ j < k))

/-- An available entry that is not the first available one. -/
def NeedsLink (h : History τ) (k : ℕ) : Prop :=
  h.Available k ∧ ∃ j, h.Available j ∧ h.Precedes j k

/-- The entry exists and comes before no other one. -/
def Newest (h : History τ) (k : ℕ) : Prop :=
  (h.entry k).isSome ∧ ∀ j, ¬ h.Precedes k j

/-- Every available entry with an earlier available one points to an earlier
entry, and a history with an available entry names an existing last one. -/
structure Connected (h : History τ) : Prop where
  previous : ∀ k, h.NeedsLink k → ∃ p, h.PointsTo k p ∧ h.Precedes p k
  last : ∀ k, h.Available k → ∃ l, h.last = some l ∧ (h.entry l).isSome

/-- The invariant behind `Connected`: all links point back, and the last entry
is available or the newest of all. -/
structure WellLinked (h : History τ) : Prop where
  back : ∀ k p, h.PointsTo k p → h.Precedes p k
  linked : ∀ k, h.NeedsLink k → ∃ p, h.PointsTo k p
  last : ∀ k, h.Available k → ∃ l, h.last = some l ∧ (h.Available l ∨ h.Newest l)

theorem WellLinked.connected {h : History τ} (hw : h.WellLinked) : h.Connected where
  previous k hk := by
    obtain ⟨p, hp⟩ := hw.linked k hk
    exact ⟨p, hp, hw.back k p hp⟩
  last k hk := by
    obtain ⟨l, hl, hcases⟩ := hw.last k hk
    refine ⟨l, hl, ?_⟩
    rcases hcases with havail | hnewest
    · exact havail.isSome
    · exact hnewest.1

theorem Precedes.left {h : History τ} {j k : ℕ} (hjk : h.Precedes j k) : (h.entry j).isSome := by
  obtain ⟨a, _, ha, _⟩ := hjk
  rw [ha]
  rfl

theorem Precedes.right {h : History τ} {j k : ℕ} (hjk : h.Precedes j k) :
    (h.entry k).isSome := by
  obtain ⟨_, b, _, hb, _⟩ := hjk
  rw [hb]
  rfl

theorem Precedes.asymm {h : History τ} {j k : ℕ} (hjk : h.Precedes j k) : ¬ h.Precedes k j := by
  intro ⟨b', a', hb', ha', hkj⟩
  obtain ⟨a, b, ha, hb, hjk⟩ := hjk
  rw [ha, Option.some.injEq] at ha'
  rw [hb, Option.some.injEq] at hb'
  subst ha' hb'
  rcases hjk with hlt | ⟨heq, hkey⟩
  · rcases hkj with hlt' | ⟨heq', _⟩
    · exact lt_asymm hlt hlt'
    · exact absurd hlt (heq' ▸ lt_irrefl _)
  · rcases hkj with hlt' | ⟨_, hkey'⟩
    · exact absurd hlt' (heq ▸ lt_irrefl _)
    · omega

/-- A history without entries is well linked. -/
theorem wellLinked_of_empty {h : History τ} (hempty : ∀ k, h.entry k = none) : h.WellLinked where
  back k p := by
    intro ⟨e, he, _⟩
    rw [hempty k] at he
    cases he
  linked k := by
    intro ⟨⟨e, he, _⟩, _⟩
    rw [hempty k] at he
    cases he
  last k := by
    intro ⟨e, he, _⟩
    rw [hempty k] at he
    cases he

section Append

/-- The new entry is the newest one and links to an existing one, if any. -/
structure Appended (h h' : History τ) (key : ℕ) (new : Entry τ) : Prop where
  fresh : h.entry key = none
  entries : ∀ k, h'.entry k = if k = key then some new else h.entry k
  later : ∀ k e, h.entry k = some e → e.stamp ≤ new.stamp ∧ k < key
  link : ∀ p, new.previous = some p → (h.entry p).isSome
  unlinked : new.previous = none → ∀ k, h.entry k = none
  last : h'.last = some key

variable {h h' : History τ} {key : ℕ} {new : Entry τ}

theorem Appended.old (ha : Appended h h' key new) {k : ℕ} {e : Entry τ}
    (hk : h.entry k = some e) : h'.entry k = some e := by
  have hne : k ≠ key := by
    intro heq
    rw [heq, ha.fresh] at hk
    cases hk
  rw [ha.entries, if_neg hne, hk]

theorem Appended.new_last (ha : Appended h h' key new) {k : ℕ} {e : Entry τ}
    (hk : h.entry k = some e) : h'.Precedes k key := by
  have hnew : h'.entry key = some new := by rw [ha.entries, if_pos rfl]
  refine ⟨e, new, ha.old hk, hnew, ?_⟩
  obtain ⟨hle, hlt⟩ := ha.later k e hk
  rcases lt_or_eq_of_le hle with hstamp | hstamp
  · exact Or.inl hstamp
  · exact Or.inr ⟨hstamp, hlt⟩

theorem Appended.precedes (ha : Appended h h' key new) {j k : ℕ} (hk : k ≠ key)
    (hjk : h'.Precedes j k) : h.Precedes j k := by
  have hold : ∀ i e, i ≠ key → h'.entry i = some e → h.entry i = some e := by
    intro i e hi he
    rwa [ha.entries, if_neg hi] at he
  by_cases hj : j = key
  · subst hj
    obtain ⟨b, hb⟩ := Option.isSome_iff_exists.mp hjk.right
    exact absurd hjk (ha.new_last (hold k b hk hb)).asymm
  · obtain ⟨a, b, hja, hkb, hlt⟩ := hjk
    exact ⟨a, b, hold j a hj hja, hold k b hk hkb, hlt⟩

theorem Appended.wellLinked (ha : Appended h h' key new) (hw : h.WellLinked) :
    h'.WellLinked where
  back k p := by
    intro ⟨e, he, hp⟩
    by_cases hk : k = key
    · subst hk
      rw [ha.entries, if_pos rfl, Option.some.injEq] at he
      subst he
      obtain ⟨q, hq⟩ := Option.isSome_iff_exists.mp (ha.link p hp)
      exact ha.new_last hq
    · rw [ha.entries, if_neg hk] at he
      obtain ⟨a, b, hpa, hkb, hlt⟩ := hw.back k p ⟨e, he, hp⟩
      exact ⟨a, b, ha.old hpa, ha.old hkb, hlt⟩
  linked k := by
    intro ⟨havail, j, hj, hjk⟩
    by_cases hk : k = key
    · subst hk
      have hnew : h'.entry k = some new := by rw [ha.entries, if_pos rfl]
      cases hprevious : new.previous with
      | some p => exact ⟨p, new, hnew, hprevious⟩
      | none =>
        -- no link means no earlier entry, and `j` would be one
        obtain ⟨a, hja⟩ := Option.isSome_iff_exists.mp hjk.left
        have hne : j ≠ k := by
          intro heq
          subst heq
          exact hjk.asymm hjk
        rw [ha.entries, if_neg hne, ha.unlinked hprevious j] at hja
        cases hja
    · have hjk := ha.precedes hk hjk
      obtain ⟨a, ha', hja⟩ := hj
      obtain ⟨e, he, hke⟩ := havail
      have hne : j ≠ key := by
        intro heq
        subst heq
        have hsome := hjk.left
        rw [ha.fresh] at hsome
        cases hsome
      rw [ha.entries, if_neg hne] at ha'
      rw [ha.entries, if_neg hk] at he
      obtain ⟨p, e', he', hp⟩ := hw.linked k ⟨⟨e, he, hke⟩, j, ⟨a, ha', hja⟩, hjk⟩
      exact ⟨p, e', ha.old he', hp⟩
  last k _ := by
    refine ⟨key, ha.last, Or.inr ⟨?_, ?_⟩⟩
    · rw [ha.entries, if_pos rfl]
      rfl
    · intro j hj
      by_cases hne : j = key
      · subst hne
        exact hj.asymm hj
      · obtain ⟨b, hb⟩ := Option.isSome_iff_exists.mp hj.right
        rw [ha.entries, if_neg hne] at hb
        exact hj.asymm (ha.new_last hb)

end Append

section Remove

variable {h : History τ} {gone : ℕ → Bool}

theorem precedes_remove {j k : ℕ} :
    (h.remove gone).Precedes j k ↔ h.Precedes j k ∧ gone j = false ∧ gone k = false := by
  unfold Precedes
  simp only [entry_remove_eq_some]
  constructor
  · intro ⟨a, b, ⟨hj, x, hx, hxa⟩, ⟨hk, y, hy, hyb⟩, hlt⟩
    subst hxa hyb
    exact ⟨⟨x, y, hx, hy, hlt⟩, hj, hk⟩
  · intro ⟨⟨x, y, hx, hy, hlt⟩, hj, hk⟩
    exact ⟨_, _, ⟨hj, x, hx, rfl⟩, ⟨hk, y, hy, rfl⟩, hlt⟩

theorem newest_remove {l : ℕ} (hl : h.Newest l) (hgone : gone l = false) :
    (h.remove gone).Newest l := by
  refine ⟨?_, fun j hj => hl.2 j (precedes_remove.mp hj).1⟩
  obtain ⟨e, he⟩ := Option.isSome_iff_exists.mp hl.1
  exact Option.isSome_iff_exists.mpr ⟨_, entry_remove_eq_some.mpr ⟨hgone, e, he, rfl⟩⟩

/-- Removing entries that no needed link and no last entry names. -/
theorem WellLinked.remove (hw : h.WellLinked)
    (hlinks : ∀ k p, h.NeedsLink k → h.PointsTo k p → gone p = false)
    (hlast : ∀ l, h.last = some l → h.Available l ∨ h.Newest l → gone l = false) :
    (h.remove gone).WellLinked where
  back k p hp := by
    obtain ⟨hp, hk, hgone⟩ := pointsTo_remove.mp hp
    exact precedes_remove.mpr ⟨hw.back k p hp, hgone, hk⟩
  linked k := by
    intro ⟨havail, j, hj, hjk⟩
    obtain ⟨havail, hk⟩ := available_remove.mp havail
    have hneeds : h.NeedsLink k :=
      ⟨havail, j, (available_remove.mp hj).1, (precedes_remove.mp hjk).1⟩
    obtain ⟨p, hp⟩ := hw.linked k hneeds
    exact ⟨p, pointsTo_remove.mpr ⟨hp, hk, hlinks k p hneeds hp⟩⟩
  last k hk := by
    obtain ⟨l, hl, hcases⟩ := hw.last k (available_remove.mp hk).1
    have hgone := hlast l hl hcases
    refine ⟨l, Option.filter_eq_some_iff.mpr ⟨hl, by simp [hgone]⟩, ?_⟩
    rcases hcases with havail | hnewest
    · exact Or.inl (available_remove.mpr ⟨havail, hgone⟩)
    · exact Or.inr (newest_remove hnewest hgone)

end Remove

section Relink

/-- The kept entries are linked to each other; the others keep their links. -/
structure Relinked (kept : ℕ → Prop) (h h' : History τ) : Prop where
  stamps : ∀ k, (h'.entry k).map Entry.stamp = (h.entry k).map Entry.stamp
  exist : ∀ k, kept k → (h.entry k).isSome
  others : ∀ k p, ¬ kept k → h'.PointsTo k p → h.PointsTo k p
  links : ∀ k p, kept k → h'.PointsTo k p → kept p ∧ h.Precedes p k
  linked : ∀ k, kept k → (∃ j, kept j ∧ h.Precedes j k) → ∃ p, h'.PointsTo k p
  last : ∀ k, kept k → ∃ l, h'.last = some l ∧ kept l ∧ ∀ j, kept j → ¬ h.Precedes l j

variable {h h' : History τ} {kept : ℕ → Prop} {gone : ℕ → Bool}

theorem Relinked.precedes (hr : Relinked kept h h') {j k : ℕ} :
    h'.Precedes j k ↔ h.Precedes j k := by
  have hstamp : ∀ (x y : History τ), (∀ i, (y.entry i).map Entry.stamp =
      (x.entry i).map Entry.stamp) → x.Precedes j k → y.Precedes j k := by
    intro x y hxy ⟨a, b, ha, hb, hlt⟩
    have hj := hxy j
    have hk := hxy k
    rw [ha, Option.map_some, Option.map_eq_some_iff] at hj
    rw [hb, Option.map_some, Option.map_eq_some_iff] at hk
    obtain ⟨a', ha', haa⟩ := hj
    obtain ⟨b', hb', hbb⟩ := hk
    exact ⟨a', b', ha', hb', by rwa [haa, hbb]⟩
  constructor
  · exact hstamp h' h (fun i => (hr.stamps i).symm)
  · exact hstamp h h' hr.stamps

/-- Relinking and then removing what is not kept gives a well-linked history,
when the kept entries are the available ones or all that is left. -/
theorem Relinked.wellLinked (hr : Relinked kept h h')
    (hback : ∀ k p, h.PointsTo k p → h.Precedes p k)
    (hgone : ∀ k, kept k → gone k = false)
    (havailable : ∀ k, h'.Available k → gone k = false → kept k)
    (hcover : (∀ k, kept k → h'.Available k) ∨
      ∀ k, (h.entry k).isSome → gone k = false → kept k) :
    (h'.remove gone).WellLinked where
  back k p hp := by
    obtain ⟨hp, hk, hgonep⟩ := pointsTo_remove.mp hp
    refine precedes_remove.mpr ⟨hr.precedes.mpr ?_, hgonep, hk⟩
    by_cases hkept : kept k
    · exact (hr.links k p hkept hp).2
    · exact hback k p (hr.others k p hkept hp)
  linked k := by
    intro ⟨havail, j, hj, hjk⟩
    obtain ⟨havail, hk⟩ := available_remove.mp havail
    obtain ⟨hj, hgonej⟩ := available_remove.mp hj
    have hkept := havailable k havail hk
    have hearlier : h.Precedes j k := hr.precedes.mp (precedes_remove.mp hjk).1
    obtain ⟨p, hp⟩ := hr.linked k hkept ⟨j, havailable j hj hgonej, hearlier⟩
    exact ⟨p, pointsTo_remove.mpr ⟨hp, hk, hgone p (hr.links k p hkept hp).1⟩⟩
  last k hk := by
    obtain ⟨havail, hgonek⟩ := available_remove.mp hk
    obtain ⟨l, hl, hkept, hnewest⟩ := hr.last k (havailable k havail hgonek)
    refine ⟨l, Option.filter_eq_some_iff.mpr ⟨hl, by simp [hgone l hkept]⟩, ?_⟩
    rcases hcover with hlocal | hall
    · exact Or.inl (available_remove.mpr ⟨hlocal l hkept, hgone l hkept⟩)
    · refine Or.inr ⟨?_, ?_⟩
      · have hstamp := congrArg Option.isSome (hr.stamps l)
        rw [Option.isSome_map, Option.isSome_map, hr.exist l hkept] at hstamp
        obtain ⟨e, he⟩ := Option.isSome_iff_exists.mp hstamp
        exact Option.isSome_iff_exists.mpr
          ⟨_, entry_remove_eq_some.mpr ⟨hgone l hkept, e, he, rfl⟩⟩
      · intro j hj
        obtain ⟨hlj, _, hgonej⟩ := precedes_remove.mp hj
        have hearlier := hr.precedes.mp hlj
        exact hnewest j (hall j hearlier.right hgonej) hearlier

end Relink

end History

end ConfigBackup.LinkedHistory
