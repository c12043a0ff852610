import Mathlib.Data.List.Pairwise
import Mathlib.Data.List.Sort
import Mathlib.Tactic.Common

/-!
Keyed tables: rows in ascending primary-key order, with a key sequence that
is never reused. Selecting, updating and deleting rows keep the keys of the
remaining rows, so a table operation cannot build two rows with one key.
-/

namespace ConfigBackup.Tables

/-- Rows ordered by their primary key; `next` is the sequence of new keys. -/
@[ext] structure Table (ρ : Type*) (key : ρ → ℕ) where
  rows : List ρ
  next : ℕ
  sorted : rows.Pairwise (fun a b => key a < key b)
  below : ∀ r ∈ rows, key r < next

namespace Table

variable {ρ : Type*} {key : ρ → ℕ}

instance : Membership ρ (Table ρ key) := ⟨fun t r => r ∈ t.rows⟩

theorem mem_iff (t : Table ρ key) (r : ρ) : r ∈ t ↔ r ∈ t.rows := Iff.rfl

def empty : Table ρ key := ⟨[], 1, List.Pairwise.nil, by simp⟩

/-- The row with primary key `k`, if there is one. -/
def get? (t : Table ρ key) (k : ℕ) : Option ρ := t.rows.find? (fun r => key r == k)

/-- Delete every row that does not satisfy `p`. -/
def filter (t : Table ρ key) (p : ρ → Bool) : Table ρ key where
  rows := t.rows.filter p
  next := t.next
  sorted := t.sorted.filter p
  below r hr := t.below r (List.mem_of_mem_filter hr)

/-- Replace every row by its image under a function that keeps keys. -/
def map (t : Table ρ key) (f : ρ → ρ) (hf : ∀ r, key (f r) = key r) : Table ρ key where
  rows := t.rows.map f
  next := t.next
  sorted := by
    rw [List.pairwise_map]
    exact t.sorted.imp (fun {a b} hab => by rw [hf a, hf b]; exact hab)
  below r hr := by
    obtain ⟨s, hs, rfl⟩ := List.mem_map.mp hr
    rw [hf s]
    exact t.below s hs

/-- Update the row with primary key `k`, leaving the others unchanged. -/
def update (t : Table ρ key) (k : ℕ) (f : ρ → ρ) (hf : ∀ r, key (f r) = key r) :
    Table ρ key :=
  t.map (fun r => if key r = k then f r else r) (fun r => by split <;> simp [hf])

/-- Append a row under the next key of the sequence. -/
def insert (t : Table ρ key) (mk : ℕ → ρ) (hmk : ∀ k, key (mk k) = k) : Table ρ key where
  rows := t.rows ++ [mk t.next]
  next := t.next + 1
  sorted := by
    rw [List.pairwise_append]
    refine ⟨t.sorted, List.pairwise_singleton _ _, ?_⟩
    intro a ha b hb
    rw [List.mem_singleton.mp hb, hmk]
    exact t.below a ha
  below r hr := by
    rcases List.mem_append.mp hr with hr | hr
    · exact Nat.lt_succ_of_lt (t.below r hr)
    · rw [List.mem_singleton.mp hr, hmk]
      exact Nat.lt_succ_self _

theorem eq_of_key_eq (t : Table ρ key) {a b : ρ} (ha : a ∈ t) (hb : b ∈ t)
    (h : key a = key b) : a = b := by
  have hinj : (t.rows.map key).Nodup := by
    rw [List.Nodup, List.pairwise_map]
    exact t.sorted.imp (fun hlt => Nat.ne_of_lt hlt)
  exact List.inj_on_of_nodup_map hinj ha hb h

theorem nodup_rows (t : Table ρ key) : t.rows.Nodup := by
  refine List.Pairwise.imp ?_ t.sorted
  intro a b hlt hab
  rw [hab] at hlt
  exact lt_irrefl _ hlt

theorem get?_eq_some_iff (t : Table ρ key) (k : ℕ) (r : ρ) :
    t.get? k = some r ↔ r ∈ t ∧ key r = k := by
  constructor
  · intro h
    have hk := List.find?_some h
    exact ⟨List.mem_of_find?_eq_some h, by simpa using hk⟩
  · rintro ⟨hr, rfl⟩
    cases hfind : t.get? (key r) with
    | none =>
      have hnone := List.find?_eq_none.mp hfind r hr
      simp at hnone
    | some s =>
      have hs : key s = key r := by simpa using List.find?_some hfind
      rw [t.eq_of_key_eq (List.mem_of_find?_eq_some hfind) hr hs]

theorem get?_of_mem (t : Table ρ key) {r : ρ} (hr : r ∈ t) : t.get? (key r) = some r :=
  (t.get?_eq_some_iff _ _).mpr ⟨hr, rfl⟩

theorem get?_eq_none_iff (t : Table ρ key) (k : ℕ) :
    t.get? k = none ↔ ∀ r ∈ t, key r ≠ k := by
  simp [get?, List.find?_eq_none, mem_iff]

@[simp] theorem mem_empty (r : ρ) : r ∉ (empty : Table ρ key) := by
  simp [mem_iff, empty]

@[simp] theorem mem_filter (t : Table ρ key) (p : ρ → Bool) (r : ρ) :
    r ∈ t.filter p ↔ r ∈ t ∧ p r = true := by
  simp [mem_iff, filter]

@[simp] theorem mem_map (t : Table ρ key) (f : ρ → ρ) (hf : ∀ r, key (f r) = key r) (r : ρ) :
    r ∈ t.map f hf ↔ ∃ s ∈ t, f s = r := by
  simp [mem_iff, map]

@[simp] theorem mem_insert (t : Table ρ key) (mk : ℕ → ρ) (hmk : ∀ k, key (mk k) = k)
    (r : ρ) : r ∈ t.insert mk hmk ↔ r ∈ t ∨ r = mk t.next := by
  simp [mem_iff, insert]

theorem mem_update (t : Table ρ key) (k : ℕ) (f : ρ → ρ) (hf : ∀ r, key (f r) = key r)
    (r : ρ) : r ∈ t.update k f hf ↔
      (r ∈ t ∧ key r ≠ k) ∨ ∃ s ∈ t, key s = k ∧ f s = r := by
  simp only [update, mem_map]
  constructor
  · rintro ⟨s, hs, hr⟩
    by_cases hk : key s = k
    · rw [if_pos hk] at hr
      exact Or.inr ⟨s, hs, hk, hr⟩
    · rw [if_neg hk] at hr
      exact Or.inl ⟨hr ▸ hs, hr ▸ hk⟩
  · rintro (⟨hr, hk⟩ | ⟨s, hs, hk, hr⟩)
    · exact ⟨r, hr, by rw [if_neg hk]⟩
    · exact ⟨s, hs, by rw [if_pos hk, hr]⟩

theorem get?_map (t : Table ρ key) (f : ρ → ρ) (hf : ∀ r, key (f r) = key r) (k : ℕ) :
    (t.map f hf).get? k = (t.get? k).map f := by
  cases h : t.get? k with
  | none =>
    simp only [Option.map_none, get?_eq_none_iff, mem_map]
    rintro r ⟨s, hs, rfl⟩
    rw [hf]
    exact (t.get?_eq_none_iff k).mp h s hs
  | some r =>
    obtain ⟨hr, hk⟩ := (t.get?_eq_some_iff k r).mp h
    exact (get?_eq_some_iff _ _ _).mpr ⟨(mem_map ..).mpr ⟨r, hr, rfl⟩, by rw [hf, hk]⟩

theorem get?_update (t : Table ρ key) (k j : ℕ) (f : ρ → ρ) (hf : ∀ r, key (f r) = key r) :
    (t.update k f hf).get? j = if j = k then (t.get? j).map f else t.get? j := by
  rw [update, get?_map]
  cases h : t.get? j with
  | none => simp
  | some r =>
    have hk := ((t.get?_eq_some_iff j r).mp h).2
    by_cases hjk : j = k <;> simp [hk, hjk]

theorem get?_filter (t : Table ρ key) (p : ρ → Bool) (k : ℕ) :
    (t.filter p).get? k = (t.get? k).filter p := by
  cases h : t.get? k with
  | none =>
    rw [get?_eq_none_iff] at h
    simp only [Option.filter_none, get?_eq_none_iff, mem_filter]
    exact fun r hr => h r hr.1
  | some r =>
    obtain ⟨hr, hk⟩ := (t.get?_eq_some_iff k r).mp h
    cases hp : p r with
    | true =>
      rw [Option.filter_some, if_pos hp]
      exact (get?_eq_some_iff _ _ _).mpr ⟨(mem_filter ..).mpr ⟨hr, hp⟩, hk⟩
    | false =>
      rw [Option.filter_some, if_neg (by simp [hp])]
      rw [get?_eq_none_iff]
      intro s hs hsk
      obtain ⟨hs, hps⟩ := (mem_filter ..).mp hs
      rw [t.eq_of_key_eq hs hr (hsk.trans hk.symm)] at hps
      simp [hp] at hps

theorem get?_insert (t : Table ρ key) (mk : ℕ → ρ) (hmk : ∀ k, key (mk k) = k) (j : ℕ) :
    (t.insert mk hmk).get? j = if j = t.next then some (mk t.next) else t.get? j := by
  by_cases hj : j = t.next
  · subst j
    rw [if_pos rfl]
    exact (get?_eq_some_iff _ _ _).mpr ⟨(mem_insert ..).mpr (Or.inr rfl), hmk _⟩
  · rw [if_neg hj]
    cases h : t.get? j with
    | none =>
      rw [get?_eq_none_iff] at h ⊢
      intro r hr
      rcases (mem_insert ..).mp hr with hr | rfl
      · exact h r hr
      · rw [hmk]
        exact Ne.symm hj
    | some r =>
      obtain ⟨hr, hk⟩ := (t.get?_eq_some_iff j r).mp h
      exact (get?_eq_some_iff _ _ _).mpr ⟨(mem_insert ..).mpr (Or.inl hr), hk⟩

theorem get?_next (t : Table ρ key) : t.get? t.next = none := by
  rw [get?_eq_none_iff]
  exact fun r hr => Nat.ne_of_lt (t.below r hr)

end Table

end ConfigBackup.Tables
