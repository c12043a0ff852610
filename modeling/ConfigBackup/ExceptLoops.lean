import Mathlib.Tactic.Common

/-!
Loops whose body may raise. An outcome is judged by two predicates, one for a
returned state and one for a raised error; the rules carry such a judgement
through a bind and through a loop that stops at its first error.
-/

namespace ConfigBackup.ExceptLoops

universe u

variable {ε : Type*} {σ τ : Type u} {α : Type*}

/-- A returned value satisfies `ok`, a raised error satisfies `err`. -/
def Outcome (ok : σ → Prop) (err : ε → Prop) : Except ε σ → Prop
  | .ok s => ok s
  | .error e => err e

@[simp] theorem outcome_ok {ok : σ → Prop} {err : ε → Prop} {s : σ} :
    Outcome ok err (Except.ok s) ↔ ok s := Iff.rfl

@[simp] theorem outcome_error {ok : σ → Prop} {err : ε → Prop} {e : ε} :
    Outcome ok err (Except.error e : Except ε σ) ↔ err e := Iff.rfl

theorem Outcome.mono {ok ok' : σ → Prop} {err err' : ε → Prop} {x : Except ε σ}
    (h : Outcome ok err x) (hok : ∀ s, ok s → ok' s) (herr : ∀ e, err e → err' e) :
    Outcome ok' err' x := by
  cases x with
  | ok s => exact hok s h
  | error e => exact herr e h

theorem Outcome.bind {ok : σ → Prop} {ok' : τ → Prop} {err : ε → Prop} {x : Except ε σ}
    {f : σ → Except ε τ} (hx : Outcome ok err x) (hf : ∀ s, ok s → Outcome ok' err (f s)) :
    Outcome ok' err (x >>= f) := by
  cases x with
  | ok s => exact hf s hx
  | error e => exact hx

/-- A bind returns when both of its parts do. -/
theorem bind_eq_ok {x : Except ε σ} {f : σ → Except ε τ} {t : τ} :
    (x >>= f) = .ok t ↔ ∃ s, x = .ok s ∧ f s = .ok t := by
  cases x with
  | ok s =>
    constructor
    · intro h
      exact ⟨s, rfl, h⟩
    · intro ⟨s', hs', h⟩
      cases hs'
      exact h
  | error e =>
    constructor
    · intro h
      cases h
    · intro ⟨_, hs, _⟩
      cases hs

/-- A loop invariant may mention the items that are already done. -/
theorem outcome_foldlM_done {inv : List α → σ → Prop} {err : ε → Prop}
    {f : σ → α → Except ε σ} {l : List α}
    (hstep : ∀ done a rest s, l = done ++ a :: rest → inv done s →
      Outcome (inv (done ++ [a])) err (f s a)) {s : σ} (hs : inv [] s) :
    Outcome (inv l) err (l.foldlM f s) := by
  have hgeneral : ∀ rest done s, l = done ++ rest → inv done s →
      Outcome (inv l) err (rest.foldlM f s) := by
    intro rest
    induction rest with
    | nil =>
      intro done s hl hs
      rw [List.append_nil] at hl
      exact hl ▸ hs
    | cons a rest ih =>
      intro done s hl hs
      rw [List.foldlM_cons]
      exact Outcome.bind (hstep done a rest s hl hs)
        (fun s' hs' => ih (done ++ [a]) s' (by simp [hl]) hs')
  exact hgeneral l [] s rfl hs

/-- An invariant of the loop body is an invariant of the loop. -/
theorem outcome_foldlM {inv : σ → Prop} {err : ε → Prop} {f : σ → α → Except ε σ} {l : List α}
    (hstep : ∀ s, ∀ a ∈ l, inv s → Outcome inv err (f s a)) {s : σ} (hs : inv s) :
    Outcome inv err (l.foldlM f s) := by
  have hdone : ∀ done a rest s, l = done ++ a :: rest → inv s → Outcome inv err (f s a) :=
    fun done a rest s hl h => hstep s a (by simp [hl]) h
  exact @outcome_foldlM_done _ _ _ (fun _ => inv) _ _ _ hdone _ hs

/-- A mark left by one item, and kept by every body, is there when the loop ends,
provided the items before that one do not raise. -/
theorem outcome_foldlM_of_mem (inv : σ → Prop) {mark : σ → Prop} {err : ε → Prop} {f : σ → α → Except ε σ}
    {pre post : List α} {a : α}
    (hpre : ∀ s, ∀ b ∈ pre, inv s → Outcome inv (fun _ => False) (f s b))
    (ha : ∀ s, inv s → Outcome mark err (f s a))
    (hkeep : ∀ s, ∀ b ∈ post, mark s → Outcome mark err (f s b)) {s : σ} (hs : inv s) :
    Outcome mark err ((pre ++ a :: post).foldlM f s) := by
  rw [List.foldlM_append]
  have hbefore : Outcome inv (fun _ => False) (pre.foldlM f s) := outcome_foldlM hpre hs
  refine Outcome.bind (Outcome.mono hbefore (fun _ h => h) (fun _ h => h.elim)) (fun t ht => ?_)
  rw [List.foldlM_cons]
  exact Outcome.bind (ha t ht) (fun u hu => outcome_foldlM hkeep hu)

end ConfigBackup.ExceptLoops
