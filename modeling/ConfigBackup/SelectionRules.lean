import ConfigBackup.NewestFirst
import Mathlib.Data.List.Perm.Subperm

/-!
Rules that decide at a time which items of a list to keep, when the list is
pruned again and again and new items arrive in between. A rule is path
independent when time only takes away what it keeps, when fewer items never
make it keep less, and when dropping items that it does not keep makes it keep
no more. Then the items kept in the pruned list are those kept in the list of
all items, at any later time.
-/

namespace ConfigBackup.SelectionRules

open NewestFirst

variable {α τ : Type*} [Preorder τ]

/-- A rule under which pruning commutes with selection. -/
structure PathIndependent (born : α → τ) (keep : List α → τ → α → Prop) : Prop where
  earlier : ∀ {l s t x}, s ≤ t → born x ≤ s → keep l t x → keep l s x
  fewer : ∀ {l m t x}, m.Nodup → m ⊆ l → keep l t x → keep m t x
  stable : ∀ {l m t x}, l.Nodup → m ⊆ l → (∀ y ∈ l, keep l t y → y ∈ m) → x ∈ m →
    keep m t x → keep l t x

/-- Nothing that the rule keeps now or later is missing from the pruned list. -/
structure Safe (keep : List α → τ → α → Prop) (now : τ) (all present : List α) : Prop where
  subset : present ⊆ all
  nodup : present.Nodup
  kept : ∀ t, now ≤ t → ∀ x ∈ all, keep all t x → x ∈ present

section Pruning

variable {born : α → τ} {keep : List α → τ → α → Prop} {now now' : τ} {all present : List α}

theorem safe_nil : Safe keep now [] [] := ⟨fun _ h => h, List.nodup_nil, fun _ _ _ h _ => h⟩

theorem Safe.later (h : Safe keep now all present) (hnow : now ≤ now') :
    Safe keep now' all present :=
  ⟨h.subset, h.nodup, fun t ht => h.kept t (le_trans hnow ht)⟩

theorem Safe.arrive {arrivals : List α} (hrule : PathIndependent born keep)
    (h : Safe keep now all present) (hnodup : (all ++ arrivals).Nodup) :
    Safe keep now (all ++ arrivals) (present ++ arrivals) where
  subset x hx := by
    rcases List.mem_append.mp hx with hx | hx
    · exact List.mem_append_left _ (h.subset hx)
    · exact List.mem_append_right _ hx
  nodup := by
    obtain ⟨_, harrivals, hdisjoint⟩ := List.nodup_append.mp hnodup
    exact List.nodup_append.mpr ⟨h.nodup, harrivals, fun a ha => hdisjoint a (h.subset ha)⟩
  kept t ht x hx hkeep := by
    rcases List.mem_append.mp hx with hold | hnew
    · refine List.mem_append_left _ (h.kept t ht x hold ?_)
      exact hrule.fewer (List.nodup_append.mp hnodup).1 (fun y hy => List.mem_append_left _ hy) hkeep
    · exact List.mem_append_right _ hnew

/-- A pruning may leave more than the rule keeps. -/
theorem Safe.prune {left : List α} (hrule : PathIndependent born keep)
    (h : Safe keep now all present) (hborn : ∀ x ∈ all, born x ≤ now)
    (hleft : left.Sublist present) (hkept : ∀ x ∈ present, keep present now x → x ∈ left) :
    Safe keep now all left where
  subset x hx := h.subset (hleft.subset hx)
  nodup := h.nodup.sublist hleft
  kept t ht x hx hkeep := by
    have hpresent := h.kept t ht x hx hkeep
    have hthen : keep present t x := hrule.fewer h.nodup h.subset hkeep
    exact hkept x hpresent (hrule.earlier ht (hborn x hx) hthen)

/-- The pruned list and the list of all items agree on what is kept. -/
theorem Safe.keep_iff (hrule : PathIndependent born keep) (h : Safe keep now all present)
    (hall : all.Nodup) {x : α} (hx : x ∈ all) :
    (x ∈ present ∧ keep present now x) ↔ keep all now x := by
  constructor
  · rintro ⟨hpresent, hkeep⟩
    exact hrule.stable hall h.subset (h.kept now le_rfl) hpresent hkeep
  · intro hkeep
    exact ⟨h.kept now le_rfl x hx hkeep, hrule.fewer h.nodup h.subset hkeep⟩

end Pruning

section Rules

variable {born : α → τ}

/-- Two path-independent rules together are one. -/
theorem PathIndependent.or {keep₁ keep₂ : List α → τ → α → Prop}
    (h₁ : PathIndependent born keep₁) (h₂ : PathIndependent born keep₂) :
    PathIndependent born (fun l t x => keep₁ l t x ∨ keep₂ l t x) where
  earlier hst hborn := Or.imp (h₁.earlier hst hborn) (h₂.earlier hst hborn)
  fewer hm hsub := Or.imp (h₁.fewer hm hsub) (h₂.fewer hm hsub)
  stable hl hsub hkept hx := Or.imp
    (h₁.stable hl hsub (fun y hy hkeep => hkept y hy (Or.inl hkeep)) hx)
    (h₂.stable hl hsub (fun y hy hkeep => hkept y hy (Or.inr hkeep)) hx)

/-- A rule that looks at one item only, and keeps it for a while. -/
theorem pathIndependent_item {p : τ → α → Prop}
    (hp : ∀ {s t x}, s ≤ t → born x ≤ s → p t x → p s x) :
    PathIndependent born (fun _ t x => p t x) where
  earlier hst hborn hkeep := hp hst hborn hkeep
  fewer _ _ hkeep := hkeep
  stable _ _ _ _ hkeep := hkeep

variable {newer : α → α → Prop}

theorem newer_trans (hr : Recency newer) {a b c : α} (hab : newer a b) (hbc : newer b c) :
    newer a c := by
  rcases hr.split a c b hab with hac | hcb
  · exact hac
  · exact absurd hcb (hr.asymm b c hbc)

/-- Among the items with a property there is a newest one. -/
theorem exists_newest_of (hr : Recency newer) {l : List α} {q : α → Prop}
    (h : ∃ x ∈ l, q x) : ∃ x ∈ l, q x ∧ ∀ y ∈ l, q y → ¬ newer y x := by
  classical
  obtain ⟨a, ha, hqa⟩ := h
  have hne : l.filter (fun y => decide (q y)) ≠ [] :=
    List.ne_nil_of_mem (List.mem_filter.mpr ⟨ha, by simpa using hqa⟩)
  obtain ⟨x, hx, hnewest⟩ := hr.exists_newest hne
  obtain ⟨hx, hqx⟩ := List.mem_filter.mp hx
  refine ⟨x, hx, by simpa using hqx, ?_⟩
  intro y hy hqy
  exact hnewest y (List.mem_filter.mpr ⟨hy, by simpa using hqy⟩)

/-- Keep the newest item of each bucket among the eligible ones. -/
theorem pathIndependent_sample {κ : Type*} (hr : Recency newer) (eligible : τ → α → Bool)
    (bucket : α → κ)
    (hage : ∀ {s t x}, s ≤ t → born x ≤ s → eligible t x = true → eligible s x = true)
    (hbucket : ∀ t x y, bucket x = bucket y → eligible t x = eligible t y) :
    PathIndependent born (fun l t x => eligible t x = true ∧
      ∀ y ∈ l, newer y x → eligible t y = true → bucket y ≠ bucket x) where
  earlier {l s t x} hst hborn hkeep := by
    refine ⟨hage hst hborn hkeep.1, ?_⟩
    intro y hy hnewer _ hsame
    have heligible : eligible t y = true := by rw [hbucket t y x hsame, hkeep.1]
    exact hkeep.2 y hy hnewer heligible hsame
  fewer _ hsub hkeep := ⟨hkeep.1, fun y hy => hkeep.2 y (hsub hy)⟩
  stable {l m t x} _ _ hkept hx hkeep := by
    refine ⟨hkeep.1, ?_⟩
    intro y hy hnewer heligible hsame
    -- the newest eligible item of the bucket is kept, so it was not dropped
    obtain ⟨z, hz, ⟨hzx, hze, hzb⟩, hnewest⟩ := exists_newest_of hr
      (q := fun z => newer z x ∧ eligible t z = true ∧ bucket z = bucket x)
      ⟨y, hy, hnewer, heligible, hsame⟩
    have hzkept : z ∈ m := by
      apply hkept z hz
      refine ⟨hze, ?_⟩
      intro w hw hwz hwe hwb
      exact hnewest w hw ⟨newer_trans hr hwz hzx, hwe, hwb.trans hzb⟩ hwz
    exact hkeep.2 z hzkept hzx hze hzb

section Counting

variable [DecidableRel newer]

/-- The items that count against `x` in one list count against `y` in another. -/
theorem newerCount_le {p : α → Bool} {l m : List α} {x y : α} (hl : l.Nodup)
    (h : ∀ z ∈ l, p z = true → newer z x → z ∈ m ∧ newer z y) :
    newerCount newer p l x ≤ newerCount newer p m y := by
  unfold newerCount
  apply List.Subperm.length_le
  apply List.subperm_of_subset (hl.filter _)
  intro z hz
  obtain ⟨hz, hcount⟩ := List.mem_filter.mp hz
  simp only [Bool.and_eq_true, decide_eq_true_eq] at hcount
  obtain ⟨hm, hy⟩ := h z hz hcount.1 hcount.2
  exact List.mem_filter.mpr ⟨hm, by simp [hcount.1, hy]⟩

/-- Keep the newest `n` items that satisfy `p`. -/
theorem pathIndependent_newest (hr : Recency newer) (p : α → Bool) (n : ℕ) :
    PathIndependent born (fun l _ x => p x = true ∧ newerCount newer p l x < n) where
  earlier _ _ hkeep := hkeep
  fewer {l m t x} hm hsub hkeep := by
    refine ⟨hkeep.1, lt_of_le_of_lt ?_ hkeep.2⟩
    exact newerCount_le hm (fun z hz _ hzx => ⟨hsub hz, hzx⟩)
  stable {l m t x} hl hsub hkept hx hkeep := by
    refine ⟨hkeep.1, ?_⟩
    by_cases hall : ∀ z ∈ l, p z = true → newer z x → z ∈ m
    · exact lt_of_le_of_lt (newerCount_le hl (fun z hz hpz hzx => ⟨hall z hz hpz hzx, hzx⟩)) hkeep.2
    · -- the newest item dropped among those newer than `x` would be kept
      exfalso
      push Not at hall
      obtain ⟨y, hy, hpy, hyx, hym⟩ := hall
      obtain ⟨z, hz, ⟨hpz, hzx, hzm⟩, hnewest⟩ := exists_newest_of hr
        (q := fun z => p z = true ∧ newer z x ∧ z ∉ m) ⟨y, hy, hpy, hyx, hym⟩
      have hcount : newerCount newer p l z ≤ newerCount newer p m x := by
        apply newerCount_le hl
        intro w hw hpw hwz
        have hwx := newer_trans hr hwz hzx
        by_contra hnot
        exact hnewest w hw ⟨hpw, hwx, fun hwm => hnot ⟨hwm, hwx⟩⟩ hwz
      exact hzm (hkept z hz ⟨hpz, lt_of_le_of_lt hcount hkeep.2⟩)

end Counting

end Rules

end ConfigBackup.SelectionRules
