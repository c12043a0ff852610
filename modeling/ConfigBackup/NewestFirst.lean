import Mathlib.Data.List.Pairwise
import Mathlib.Data.List.Sort
import Mathlib.Order.Defs.LinearOrder
import Mathlib.Tactic.Common

/-!
Selections from a list whose items stand newest first. Each selection loop is
characterised by comparing an item with the newer items of the same list, so
that its result no longer mentions positions, counters or sets of seen keys.
-/

namespace ConfigBackup.NewestFirst

variable {α : Type*} {newer : α → α → Prop}

/-- A strict weak order: what is newer than an item is newer than, or newest
first after, any third item. -/
structure Recency (newer : α → α → Prop) : Prop where
  asymm : ∀ a b, newer a b → ¬ newer b a
  split : ∀ a b c, newer a c → newer a b ∨ newer b c

theorem Recency.exists_newest (hr : Recency newer) {l : List α} (hl : l ≠ []) :
    ∃ x ∈ l, ∀ y ∈ l, ¬ newer y x := by
  induction l with
  | nil => exact absurd rfl hl
  | cons a l ih =>
    have hself : ¬ newer a a := fun h => hr.asymm a a h h
    cases l with
    | nil => exact ⟨a, List.mem_cons_self, by simpa using hself⟩
    | cons b l =>
      obtain ⟨x, hx, hmax⟩ := ih (List.cons_ne_nil b l)
      by_cases hax : newer a x
      · refine ⟨a, List.mem_cons_self, ?_⟩
        intro y hy hya
        rcases List.mem_cons.mp hy with rfl | hy
        · exact hself hya
        · rcases hr.split y x a hya with hyx | hxa
          · exact hmax y hy hyx
          · exact hr.asymm x a hxa hax
      · refine ⟨x, List.mem_cons_of_mem a hx, ?_⟩
        intro y hy hyx
        rcases List.mem_cons.mp hy with rfl | hy
        · exact hax hyx
        · exact hmax y hy hyx

section Stamps
variable {τ : Type*} [LinearOrder τ]

/-- Newer by time stamp, then by greater identifier. -/
def newerBy (stamp : α → τ) (ident : α → ℕ) (a b : α) : Prop :=
  stamp b < stamp a ∨ (stamp b = stamp a ∧ ident b < ident a)

instance (stamp : α → τ) (ident : α → ℕ) : DecidableRel (newerBy stamp ident) := fun a b =>
  inferInstanceAs (Decidable (stamp b < stamp a ∨ (stamp b = stamp a ∧ ident b < ident a)))

theorem recency_newerBy (stamp : α → τ) (ident : α → ℕ) : Recency (newerBy stamp ident) where
  asymm a b hab hba := by
    rcases hab with hab | ⟨hab, hid⟩
    · rcases hba with hba | ⟨hba, _⟩
      · exact lt_asymm hab hba
      · exact absurd hba (ne_of_gt hab)
    · rcases hba with hba | ⟨_, hid'⟩
      · exact absurd hab (ne_of_gt hba)
      · omega
  split a b c hac := by
    rcases lt_trichotomy (stamp a) (stamp b) with hab | hab | hab
    · refine Or.inr (Or.inl (lt_of_le_of_lt ?_ hab))
      rcases hac with hac | ⟨hac, _⟩
      · exact hac.le
      · exact hac.le
    · rcases hac with hac | ⟨hac, hid⟩
      · exact Or.inr (Or.inl (hab ▸ hac))
      · by_cases hb : ident b < ident a
        · exact Or.inl (Or.inr ⟨hab.symm, hb⟩)
        · exact Or.inr (Or.inr ⟨hac.trans hab, by omega⟩)
    · exact Or.inl (Or.inl hab)

theorem newerBy_or_newerBy {stamp : α → τ} {ident : α → ℕ} {a b : α}
    (h : ident a ≠ ident b) : newerBy stamp ident a b ∨ newerBy stamp ident b a := by
  rcases lt_trichotomy (stamp a) (stamp b) with hab | hab | hab
  · exact Or.inr (Or.inl hab)
  · rcases Nat.lt_or_gt_of_ne h with hid | hid
    · exact Or.inr (Or.inr ⟨hab, hid⟩)
    · exact Or.inl (Or.inr ⟨hab.symm, hid⟩)
  · exact Or.inl (Or.inl hab)

end Stamps

section Sorting
variable [DecidableRel newer]

/-- A stable sort that puts the newest item first. -/
def newestFirst (newer : α → α → Prop) [DecidableRel newer] (l : List α) : List α :=
  l.insertionSort (fun a b => ¬ newer b a)

theorem newestFirst_perm (l : List α) : (newestFirst newer l).Perm l :=
  List.perm_insertionSort _ l

@[simp] theorem mem_newestFirst {l : List α} {x : α} : x ∈ newestFirst newer l ↔ x ∈ l :=
  List.mem_insertionSort _

/-- No item comes after one that it is newer than. -/
theorem sorted_newestFirst (hr : Recency newer) (l : List α) :
    (newestFirst newer l).Pairwise (fun a b => ¬ newer b a) := by
  have htotal : Std.Total (fun a b : α => ¬ newer b a) := ⟨fun a b => by
    by_cases hab : newer b a
    · exact Or.inr (hr.asymm b a hab)
    · exact Or.inl hab⟩
  have htrans : IsTrans α (fun a b => ¬ newer b a) := ⟨fun a b c hab hbc hca => by
    rcases hr.split c b a hca with hcb | hba
    · exact hbc hcb
    · exact hab hba⟩
  exact List.pairwise_insertionSort (fun a b : α => ¬ newer b a) l

/-- Items that are pairwise comparable come out strictly newest first. -/
theorem pairwise_newestFirst (hr : Recency newer) {l : List α}
    (hl : l.Pairwise (fun a b => newer a b ∨ newer b a)) :
    (newestFirst newer l).Pairwise newer := by
  have hcomparable : (newestFirst newer l).Pairwise (fun a b => newer a b ∨ newer b a) :=
    ((newestFirst_perm l).pairwise_iff (fun h => h.symm)).mpr hl
  exact hcomparable.imp₂ (fun a b hab hnot => hab.resolve_right hnot) (sorted_newestFirst hr l)

end Sorting

section Counting
variable [DecidableRel newer]

/-- How many items satisfying `p` are newer than `x`. -/
def newerCount (newer : α → α → Prop) [DecidableRel newer] (p : α → Bool) (l : List α) (x : α) :
    ℕ :=
  (l.filter (fun y => p y && decide (newer y x))).length

theorem newerCount_perm {p : α → Bool} {l m : List α} (h : l.Perm m) (x : α) :
    newerCount newer p l x = newerCount newer p m x :=
  (h.filter _).length_eq

private theorem newerCount_head (hasymm : ∀ a b, newer a b → ¬ newer b a) {p : α → Bool}
    {a : α} {l : List α} (hl : (a :: l).Pairwise newer) : newerCount newer p (a :: l) a = 0 := by
  have hself : ¬ newer a a := fun h => hasymm a a h h
  have hrest : ∀ y ∈ l, ¬ newer y a := fun y hy => hasymm a y ((List.pairwise_cons.mp hl).1 y hy)
  simp only [newerCount, List.length_eq_zero_iff, List.filter_eq_nil_iff, List.mem_cons,
    Bool.and_eq_true, decide_eq_true_eq, not_and]
  rintro y (rfl | hy) _
  · exact hself
  · exact hrest y hy

private theorem newerCount_tail {p : α → Bool} {a x : α} {l : List α} (hax : newer a x) :
    newerCount newer p (a :: l) x = newerCount newer p l x + (if p a then 1 else 0) := by
  unfold newerCount
  cases hp : p a <;> simp [hp, hax]

/-- The first `k` matching items are those with fewer than `k` newer matches. -/
theorem mem_take_filter_iff (hasymm : ∀ a b, newer a b → ¬ newer b a) {p : α → Bool}
    {l : List α} (hl : l.Pairwise newer) (k : ℕ) (x : α) :
    x ∈ (l.filter p).take k ↔ x ∈ l ∧ p x = true ∧ newerCount newer p l x < k := by
  induction l generalizing k with
  | nil => simp
  | cons a l ih =>
    obtain ⟨hhead, htail⟩ := List.pairwise_cons.mp hl
    have hne : ∀ y ∈ l, y ≠ a := by
      intro y hy hya
      subst y
      exact hasymm a a (hhead a hy) (hhead a hy)
    cases hp : p a with
    | false =>
      rw [List.filter_cons_of_neg (by simp [hp]), ih htail]
      constructor
      · rintro ⟨hx, hpx, hk⟩
        refine ⟨List.mem_cons_of_mem a hx, hpx, ?_⟩
        rw [newerCount_tail (hhead x hx), hp]
        exact hk
      · rintro ⟨hx, hpx, hk⟩
        rcases List.mem_cons.mp hx with rfl | hx
        · simp [hp] at hpx
        · rw [newerCount_tail (hhead x hx), hp] at hk
          exact ⟨hx, hpx, hk⟩
    | true =>
      rw [List.filter_cons_of_pos hp]
      cases k with
      | zero => simp
      | succ k =>
        rw [List.take_succ_cons, List.mem_cons, ih htail]
        constructor
        · rintro (rfl | ⟨hx, hpx, hk⟩)
          · exact ⟨List.mem_cons_self, hp, by rw [newerCount_head hasymm hl]; omega⟩
          · refine ⟨List.mem_cons_of_mem a hx, hpx, ?_⟩
            rw [newerCount_tail (hhead x hx), if_pos hp]
            omega
        · rintro ⟨hx, hpx, hk⟩
          rcases List.mem_cons.mp hx with rfl | hx
          · exact Or.inl rfl
          · rw [newerCount_tail (hhead x hx), if_pos hp] at hk
            exact Or.inr ⟨hx, hpx, by omega⟩

end Counting

section Buckets
variable {κ : Type*} [DecidableEq κ]

/-- The first eligible item of every bucket that has not been seen yet. -/
def firstPerBucket (eligible : α → Bool) (bucket : α → κ) : List κ → List α → List α
  | _, [] => []
  | seen, item :: rest =>
    if !eligible item then firstPerBucket eligible bucket seen rest
    else if bucket item ∈ seen then firstPerBucket eligible bucket seen rest
    else item :: firstPerBucket eligible bucket (bucket item :: seen) rest

theorem firstPerBucket_sublist (eligible : α → Bool) (bucket : α → κ) (seen : List κ)
    (l : List α) : (firstPerBucket eligible bucket seen l).Sublist l := by
  induction l generalizing seen with
  | nil => exact List.Sublist.slnil
  | cons a l ih =>
    unfold firstPerBucket
    split
    · exact (ih seen).cons a
    · split
      · exact (ih seen).cons a
      · exact (ih _).cons_cons a

/-- The loop picks an eligible item exactly when no newer eligible item shares
its bucket. -/
theorem mem_firstPerBucket_iff (hasymm : ∀ a b, newer a b → ¬ newer b a)
    {eligible : α → Bool} {bucket : α → κ} {seen : List κ} {l : List α}
    (hl : l.Pairwise newer) (x : α) :
    x ∈ firstPerBucket eligible bucket seen l ↔
      x ∈ l ∧ eligible x = true ∧ bucket x ∉ seen ∧
        ∀ y ∈ l, newer y x → eligible y = true → bucket y ≠ bucket x := by
  induction l generalizing seen with
  | nil => simp [firstPerBucket]
  | cons a l ih =>
    obtain ⟨hhead, htail⟩ := List.pairwise_cons.mp hl
    have hself : ¬ newer a a := fun h => hasymm a a h h
    have hnot : ∀ y ∈ l, ¬ newer y a := fun y hy => hasymm a y (hhead y hy)
    have hne : ∀ y ∈ l, y ≠ a := by
      rintro y hy rfl
      exact hself (hhead _ hy)
    unfold firstPerBucket
    by_cases he : eligible a = true
    · rw [if_neg (by simp [he])]
      by_cases hs : bucket a ∈ seen
      · rw [if_pos hs, ih htail]
        constructor
        · rintro ⟨hx, hex, hbx, hall⟩
          refine ⟨List.mem_cons_of_mem a hx, hex, hbx, ?_⟩
          intro y hy hyx hey
          rcases List.mem_cons.mp hy with rfl | hy
          · exact fun heq => hbx (heq ▸ hs)
          · exact hall y hy hyx hey
        · rintro ⟨hx, hex, hbx, hall⟩
          rcases List.mem_cons.mp hx with rfl | hx
          · exact absurd hs hbx
          · exact ⟨hx, hex, hbx, fun y hy => hall y (List.mem_cons_of_mem a hy)⟩
      · rw [if_neg hs, List.mem_cons, ih htail]
        constructor
        · rintro (rfl | ⟨hx, hex, hbx, hall⟩)
          · refine ⟨List.mem_cons_self, he, hs, ?_⟩
            intro y hy hyx
            rcases List.mem_cons.mp hy with rfl | hy
            · exact absurd hyx hself
            · exact absurd hyx (hnot y hy)
          · simp only [List.mem_cons, not_or] at hbx
            refine ⟨List.mem_cons_of_mem a hx, hex, hbx.2, ?_⟩
            intro y hy hyx hey
            rcases List.mem_cons.mp hy with rfl | hy
            · exact Ne.symm hbx.1
            · exact hall y hy hyx hey
        · rintro ⟨hx, hex, hbx, hall⟩
          rcases List.mem_cons.mp hx with rfl | hx
          · exact Or.inl rfl
          · refine Or.inr ⟨hx, hex, ?_, fun y hy => hall y (List.mem_cons_of_mem a hy)⟩
            simp only [List.mem_cons, not_or]
            exact ⟨Ne.symm (hall a List.mem_cons_self (hhead x hx) he), hbx⟩
    · rw [if_pos (by simp [he]), ih htail]
      constructor
      · rintro ⟨hx, hex, hbx, hall⟩
        refine ⟨List.mem_cons_of_mem a hx, hex, hbx, ?_⟩
        intro y hy hyx hey
        rcases List.mem_cons.mp hy with rfl | hy
        · exact absurd hey he
        · exact hall y hy hyx hey
      · rintro ⟨hx, hex, hbx, hall⟩
        rcases List.mem_cons.mp hx with rfl | hx
        · exact absurd hex he
        · exact ⟨hx, hex, hbx, fun y hy => hall y (List.mem_cons_of_mem a hy)⟩

end Buckets

/-- The head of a list is its only item without a newer one. -/
theorem head?_eq_some_iff (hasymm : ∀ a b, newer a b → ¬ newer b a) {l : List α}
    (hl : l.Pairwise newer) (x : α) :
    l.head? = some x ↔ x ∈ l ∧ ∀ y ∈ l, ¬ newer y x := by
  cases l with
  | nil => simp
  | cons a l =>
    have hhead := (List.pairwise_cons.mp hl).1
    simp only [List.head?_cons, Option.some.injEq]
    constructor
    · rintro rfl
      refine ⟨List.mem_cons_self, ?_⟩
      intro y hy hya
      rcases List.mem_cons.mp hy with rfl | hy
      · exact hasymm y y hya hya
      · exact hasymm _ _ hya (hhead y hy)
    · rintro ⟨hx, hall⟩
      rcases List.mem_cons.mp hx with rfl | hx
      · rfl
      · exact absurd (hhead x hx) (hall a List.mem_cons_self)

theorem mem_take_one_iff (hasymm : ∀ a b, newer a b → ¬ newer b a) {l : List α}
    (hl : l.Pairwise newer) (x : α) :
    x ∈ l.take 1 ↔ x ∈ l ∧ ∀ y ∈ l, ¬ newer y x := by
  rw [← head?_eq_some_iff hasymm hl]
  cases l with
  | nil => simp
  | cons a l => simp [eq_comm]

end ConfigBackup.NewestFirst
