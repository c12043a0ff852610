import Mathlib.Data.List.Basic
import Mathlib.Tactic.Common

/-!
Loops that are started again after an interruption. A turn finishes its item, a finished
item is passed over, and an interrupted turn leaves at most a residue that the next attempt
at the same item takes up. Then any number of interrupted runs before a complete run makes
no difference to the state that the loop ends in.
-/

namespace ConfigBackup.ResumableLoops

/-- The turns of a loop without interruptions, and what an interrupted turn leaves. -/
structure Loop (ι σ : Type*) where
  turn : ι → σ → Option σ
  Finished : ι → σ → Prop
  Residue : ι → σ → σ → Prop

/-- What makes a loop one that can be started again. -/
structure Loop.Resumable {ι σ : Type*} (l : Loop ι σ) : Prop where
  finishes : ∀ {i s t}, l.turn i s = some t → l.Finished i t
  keeps : ∀ {i j s t}, l.turn i s = some t → l.Finished j s → l.Finished j t
  passed : ∀ {i s t}, l.Finished i s → l.turn i s = some t → t = s
  residue_passed : ∀ {i s t}, l.Finished i s → l.Residue i s t → t = s
  residue_keeps : ∀ {i j s t}, l.Residue i s t → l.Finished j s → l.Finished j t
  residue_trans : ∀ {i s t u}, l.Residue i s t → l.Residue i t u → l.Residue i s u
  taken_up : ∀ {i s t u}, l.Residue i s t → l.turn i t = some u → l.turn i s = some u

namespace Loop

variable {ι σ : Type*} (l : Loop ι σ)

/-- A run over the items without an interruption. -/
def run : List ι → σ → Option σ
  | [], s => some s
  | i :: rest, s => (l.turn i s).bind (run rest)

/-- A run over the items that was interrupted in the turn of one of them. -/
def Interrupted (items : List ι) (s t : σ) : Prop :=
  ∃ front i rest u, items = front ++ i :: rest ∧ l.run front s = some u ∧ l.Residue i u t

/-- Interrupted runs, each from where the one before it stopped. -/
inductive Attempts (items : List ι) (s : σ) : σ → Prop
  | start : Attempts items s s
  | again {t u : σ} : Attempts items s t → l.Interrupted items t u → Attempts items s u

/-- The items up to some place are finished, and the next turn may have left a residue. -/
def Reached (items : List ι) (s t : σ) : Prop :=
  ∃ front rest u, items = front ++ rest ∧ l.run front s = some u ∧
    (t = u ∨ ∃ i later, rest = i :: later ∧ l.Residue i u t)

variable {l}

theorem run_append (front rest : List ι) (s : σ) :
    l.run (front ++ rest) s = (l.run front s).bind (l.run rest) := by
  induction front generalizing s with
  | nil => rfl
  | cons i front ih =>
    show (l.turn i s).bind (l.run (front ++ rest)) = ((l.turn i s).bind (l.run front)).bind _
    cases l.turn i s with
    | none => rfl
    | some t => exact ih t

theorem run_append_eq_some {front rest : List ι} {s u : σ} (h : l.run front s = some u) :
    l.run (front ++ rest) s = l.run rest u := by
  rw [run_append, h, Option.bind_some]

theorem interrupted_here {i : ι} {rest : List ι} {s t : σ} (h : l.Residue i s t) :
    l.Interrupted (i :: rest) s t :=
  ⟨[], i, rest, s, rfl, rfl, h⟩

theorem interrupted_later {i : ι} {rest : List ι} {s t u : σ} (hturn : l.turn i s = some t)
    (h : l.Interrupted rest t u) : l.Interrupted (i :: rest) s u := by
  obtain ⟨front, j, later, v, hrest, hrun, hresidue⟩ := h
  refine ⟨i :: front, j, later, v, ?_, ?_, hresidue⟩
  · rw [hrest, List.cons_append]
  · show (l.turn i s).bind (l.run front) = some v
    rw [hturn, Option.bind_some, hrun]

variable (hl : l.Resumable)
include hl

theorem finished_of_run {items : List ι} {s t : σ} (h : l.run items s = some t) {j : ι}
    (hj : j ∈ items ∨ l.Finished j s) : l.Finished j t := by
  induction items generalizing s with
  | nil =>
    cases h
    exact hj.resolve_left List.not_mem_nil
  | cons i rest ih =>
    obtain ⟨u, hturn, hrest⟩ := Option.bind_eq_some_iff.mp h
    apply ih hrest
    rcases hj with hj | hj
    · rcases List.mem_cons.mp hj with rfl | hj
      · exact Or.inr (hl.finishes hturn)
      · exact Or.inl hj
    · exact Or.inr (hl.keeps hturn hj)

/-- A run passes over finished items. -/
theorem run_of_finished {items : List ι} {s t : σ} (hfinished : ∀ i ∈ items, l.Finished i s)
    (h : l.run items s = some t) : t = s := by
  induction items generalizing s with
  | nil =>
    cases h
    rfl
  | cons i rest ih =>
    obtain ⟨u, hturn, hrest⟩ := Option.bind_eq_some_iff.mp h
    have hsame := hl.passed (hfinished i List.mem_cons_self) hturn
    subst hsame
    exact ih (fun j hj => hfinished j (List.mem_cons_of_mem i hj)) hrest

theorem finished_of_stop {front rest : List ι} {s t u : σ} (hrun : l.run front s = some u)
    (hstop : t = u ∨ ∃ i later, rest = i :: later ∧ l.Residue i u t) :
    ∀ i ∈ front, l.Finished i t := by
  intro i hi
  have hfinished := finished_of_run hl hrun (Or.inl hi)
  rcases hstop with rfl | ⟨j, _, _, hresidue⟩
  · exact hfinished
  · exact hl.residue_keeps hresidue hfinished

/-- The first turn after an interruption takes the residue up. -/
theorem run_of_stop {rest : List ι} {t u v : σ}
    (hstop : t = u ∨ ∃ i later, rest = i :: later ∧ l.Residue i u t)
    (h : l.run rest t = some v) : l.run rest u = some v := by
  rcases hstop with rfl | ⟨i, later, rfl, hresidue⟩
  · exact h
  · obtain ⟨w, hturn, hlater⟩ := Option.bind_eq_some_iff.mp h
    exact Option.bind_eq_some_iff.mpr ⟨w, hl.taken_up hresidue hturn, hlater⟩

theorem reached_interrupted {items : List ι} {s t w : σ} (h : l.Reached items s t)
    (hagain : l.Interrupted items t w) : l.Reached items s w := by
  obtain ⟨front, rest, u, hitems, hrun, hstop⟩ := h
  obtain ⟨front', i, rest', v, hitems', hrun', hresidue⟩ := hagain
  have hfinished := finished_of_stop hl hrun hstop
  rw [hitems] at hitems'
  rcases List.append_eq_append_iff.mp hitems' with ⟨more, hfront', hrest⟩ | ⟨more, hfront, hrest⟩
  · -- The interrupted run gets at least as far as the one before it.
    rw [hfront', run_append] at hrun'
    obtain ⟨x, hx, hmore⟩ := Option.bind_eq_some_iff.mp hrun'
    have hsame := run_of_finished hl hfinished hx
    subst hsame
    cases more with
    | nil =>
      cases hmore
      refine ⟨front, rest, u, hitems, hrun, Or.inr ⟨i, rest', hrest, ?_⟩⟩
      rcases hstop with rfl | ⟨j, later, hlater, hbefore⟩
      · exact hresidue
      · rw [hlater, List.nil_append, List.cons.injEq] at hrest
        rw [hrest.1] at hbefore
        exact hl.residue_trans hbefore hresidue
    | cons j more =>
      have hstop' : x = u ∨ ∃ i later, j :: more = i :: later ∧ l.Residue i u x := by
        rcases hstop with hsame | ⟨k, later, hlater, hbefore⟩
        · exact Or.inl hsame
        · rw [hlater, List.cons_append, List.cons.injEq] at hrest
          exact Or.inr ⟨j, more, rfl, hrest.1 ▸ hbefore⟩
      have hreach := run_of_stop hl hstop' hmore
      refine ⟨front ++ j :: more, i :: rest', v, ?_, ?_, Or.inr ⟨i, rest', rfl, hresidue⟩⟩
      · rw [hitems, hrest, List.append_assoc]
      · rw [run_append_eq_some hrun]
        exact hreach
  · -- It stops at an item that is finished already.
    have hfront' : ∀ j ∈ front', l.Finished j t := fun j hj =>
      hfinished j (hfront ▸ List.mem_append_left more hj)
    have hsame := run_of_finished hl hfront' hrun'
    subst hsame
    cases more with
    | nil =>
      rw [List.append_nil] at hfront
      subst hfront
      refine ⟨front, rest, u, hitems, hrun, Or.inr ⟨i, rest', hrest.symm, ?_⟩⟩
      rcases hstop with rfl | ⟨j, later, hlater, hbefore⟩
      · exact hresidue
      · rw [List.nil_append, hlater, List.cons.injEq] at hrest
        rw [← hrest.1] at hbefore
        exact hl.residue_trans hbefore hresidue
    | cons j more =>
      rw [List.cons_append, List.cons.injEq] at hrest
      have hdone : l.Finished i v := by
        apply hfinished
        rw [hfront, hrest.1]
        exact List.mem_append_right _ List.mem_cons_self
      rw [hl.residue_passed hdone hresidue]
      exact ⟨front, rest, u, hitems, hrun, hstop⟩

theorem reached_attempts {items : List ι} {s t : σ} (h : l.Attempts items s t) :
    l.Reached items s t := by
  induction h with
  | start => exact ⟨[], items, s, rfl, rfl, Or.inl rfl⟩
  | again _ hagain ih => exact reached_interrupted hl ih hagain

/-- Whatever the interrupted runs did, a complete run ends as a single run would. -/
theorem run_of_attempts {items : List ι} {s t w : σ} (h : l.Attempts items s t)
    (hrun : l.run items t = some w) : l.run items s = some w := by
  obtain ⟨front, rest, u, hitems, hfront, hstop⟩ := reached_attempts hl h
  rw [hitems, run_append] at hrun
  obtain ⟨x, hx, hrest⟩ := Option.bind_eq_some_iff.mp hrun
  have hsame := run_of_finished hl (finished_of_stop hl hfront hstop) hx
  subst hsame
  rw [hitems, run_append_eq_some hfront]
  exact run_of_stop hl hstop hrest

/-- Interrupted runs only finish items. -/
theorem finished_of_attempts {items : List ι} {s t : σ} (h : l.Attempts items s t) {j : ι}
    (hj : l.Finished j s) : l.Finished j t := by
  induction h with
  | start => exact hj
  | again _ hagain ih =>
    obtain ⟨front, i, rest, v, _, hrun, hresidue⟩ := hagain
    exact hl.residue_keeps hresidue (finished_of_run hl hrun (Or.inr ih))

end Loop

end ConfigBackup.ResumableLoops
