import Mathlib.Data.Option.Basic
import Mathlib.Tactic.Common

/-!
Runs of a labelled transition system. A label carries every choice of the
environment, so a step is a partial function and a run is a list of labels.
A guarded run meets a condition on the state before each of its steps; the
rules below reduce a statement about such a run to one about a single step.
-/

namespace ConfigBackup.GuardedRuns

variable {σ α : Type*}

/-- Take the labelled steps in order; `none` when one of them is not enabled. -/
def exec (step : σ → α → Option σ) : σ → List α → Option σ
  | s, [] => some s
  | s, a :: rest => (step s a).bind fun s' => exec step s' rest

/-- Every step of the run meets the guard in the state before it. -/
def Guarded (step : σ → α → Option σ) (guard : σ → α → Prop) : σ → List α → Prop
  | _, [] => True
  | s, a :: rest => guard s a ∧ ∀ s', step s a = some s' → Guarded step guard s' rest

variable {step : σ → α → Option σ} {guard : σ → α → Prop}

theorem exec_cons_eq_some {s t : σ} {a : α} {rest : List α} :
    exec step s (a :: rest) = some t ↔
      ∃ s', step s a = some s' ∧ exec step s' rest = some t := by
  simp [exec, Option.bind_eq_some_iff]

theorem exec_append_eq_some {s t : σ} {pre post : List α} :
    exec step s (pre ++ post) = some t ↔
      ∃ u, exec step s pre = some u ∧ exec step u post = some t := by
  induction pre generalizing s with
  | nil => simp [exec]
  | cons a pre ih =>
    simp only [List.cons_append, exec_cons_eq_some, ih]
    constructor
    · rintro ⟨s', hs', u, hu, ht⟩
      exact ⟨u, ⟨s', hs', hu⟩, ht⟩
    · rintro ⟨u, ⟨s', hs', hu⟩, ht⟩
      exact ⟨s', hs', u, hu, ht⟩

theorem guarded_append {s u : σ} {pre post : List α} (hu : exec step s pre = some u)
    (h : Guarded step guard s (pre ++ post)) :
    Guarded step guard s pre ∧ Guarded step guard u post := by
  induction pre generalizing s with
  | nil =>
    simp only [exec, Option.some.injEq] at hu
    subst u
    exact ⟨trivial, h⟩
  | cons a pre ih =>
    obtain ⟨s', hs', hu'⟩ := exec_cons_eq_some.mp hu
    have hrest := ih hu' (h.2 s' hs')
    refine ⟨⟨h.1, ?_⟩, hrest.2⟩
    intro t ht
    rw [hs', Option.some.injEq] at ht
    exact ht ▸ hrest.1

/-- Two guarded parts make a guarded run. -/
theorem Guarded.append {s : σ} {pre post : List α} (hpre : Guarded step guard s pre)
    (hpost : ∀ u, exec step s pre = some u → Guarded step guard u post) :
    Guarded step guard s (pre ++ post) := by
  induction pre generalizing s with
  | nil => exact hpost s rfl
  | cons a pre ih =>
    refine ⟨hpre.1, fun s' hs' => ih (hpre.2 s' hs') ?_⟩
    intro u hu
    exact hpost u (exec_cons_eq_some.mpr ⟨s', hs', hu⟩)

/-- Labels that meet the guard in every state make a guarded run. -/
theorem guarded_of_forall {s : σ} {labels : List α} (h : ∀ a ∈ labels, ∀ s, guard s a) :
    Guarded step guard s labels := by
  induction labels generalizing s with
  | nil => trivial
  | cons a rest ih =>
    exact ⟨h a List.mem_cons_self s, fun _ _ => ih (fun b hb => h b (List.mem_cons_of_mem a hb))⟩

/-- A guard that can be decided is decided along the run. -/
instance decidableGuarded [∀ s a, Decidable (guard s a)] :
    ∀ (s : σ) (labels : List α), Decidable (Guarded step guard s labels)
  | _, [] => isTrue trivial
  | s, a :: rest =>
    match h : step s a with
    | none => decidable_of_iff (guard s a) (by simp [Guarded, h])
    | some s' =>
      have := decidableGuarded s' rest
      decidable_of_iff (guard s a ∧ Guarded step guard s' rest) (by simp [Guarded, h])

theorem Guarded.mono {guard' : σ → α → Prop} (hg : ∀ s a, guard s a → guard' s a)
    {s : σ} {labels : List α} (h : Guarded step guard s labels) :
    Guarded step guard' s labels := by
  induction labels generalizing s with
  | nil => trivial
  | cons a rest ih => exact ⟨hg s a h.1, fun s' hs' => ih (h.2 s' hs')⟩

/-- A predicate kept by every guarded step holds at the end of a guarded run. -/
theorem invariant_of_step (inv : σ → Prop)
    (hstep : ∀ s a s', inv s → guard s a → step s a = some s' → inv s')
    {s t : σ} {labels : List α} (hs : inv s) (hg : Guarded step guard s labels)
    (hrun : exec step s labels = some t) : inv t := by
  induction labels generalizing s with
  | nil =>
    simp only [exec, Option.some.injEq] at hrun
    exact hrun ▸ hs
  | cons a rest ih =>
    obtain ⟨s', hs', hrun'⟩ := exec_cons_eq_some.mp hrun
    exact ih (hstep s a s' hs hg.1 hs') (hg.2 s' hs') hrun'

/-- A guarded run from an invariant state relates its ends by any preorder that
each of its steps respects. -/
theorem relation_of_step (inv : σ → Prop) (rel : σ → σ → Prop)
    (hrefl : ∀ s, rel s s) (htrans : ∀ {s u t}, rel s u → rel u t → rel s t)
    (hstep : ∀ s a s', inv s → guard s a → step s a = some s' → inv s' ∧ rel s s')
    {s t : σ} {labels : List α} (hs : inv s) (hg : Guarded step guard s labels)
    (hrun : exec step s labels = some t) : rel s t := by
  induction labels generalizing s with
  | nil =>
    simp only [exec, Option.some.injEq] at hrun
    exact hrun ▸ hrefl s
  | cons a rest ih =>
    obtain ⟨s', hs', hrun'⟩ := exec_cons_eq_some.mp hrun
    have h := hstep s a s' hs hg.1 hs'
    exact htrans h.2 (ih h.1 (hg.2 s' hs') hrun')

end ConfigBackup.GuardedRuns
