import Mathlib.Logic.Relation
import Mathlib.Tactic.Common

/-!
Programs that work side by side on one world. A worker sends one request after the other;
between two of them any of the others may send theirs, and a worker may stop for good at any
time. A request that fails may or may not have taken effect. Requests have kinds, so that it
can be said which of them may fail.
-/

namespace ConfigBackup.Workers

inductive Worker (κ ω ε α : Type) : Type 1
  | returned (a : α)
  | raised (e : ε)
  | request {β : Type} (kind : κ) (f : ω → Except ε β × ω) (next : Except ε β → Worker κ ω ε α)

variable {ι κ ω ε α β : Type}

section Programs

def Worker.bind (k : α → Worker κ ω ε β) : Worker κ ω ε α → Worker κ ω ε β
  | .returned a => k a
  | .raised e => .raised e
  | .request kind f next => .request kind f fun reply => (next reply).bind k

instance : Monad (Worker κ ω ε) where
  pure := .returned
  bind m k := m.bind k

/-- Send a request and return its reply, or raise its failure. -/
def send (kind : κ) (f : ω → Except ε α × ω) : Worker κ ω ε α :=
  .request kind f fun reply =>
    match reply with
    | .ok a => .returned a
    | .error e => .raised e

def raise (e : ε) : Worker κ ω ε α := .raised e

/-- `try`: what was raised goes to the handler, and no effect is undone. -/
def handle (h : ε → Worker κ ω ε α) : Worker κ ω ε α → Worker κ ω ε α
  | .returned a => .returned a
  | .raised e => h e
  | .request kind f next => .request kind f fun reply => handle h (next reply)

/-- A run with no other worker, in which every request is answered. -/
def Worker.alone : Worker κ ω ε α → ω → Except ε α × ω
  | .returned a, w => (.ok a, w)
  | .raised e, w => (.error e, w)
  | .request _ f next, w => (next (f w).1).alone (f w).2

variable {m : Worker κ ω ε α} {k : α → Worker κ ω ε β} {h : ε → Worker κ ω ε α} {a : α} {e : ε}
  {w w' : ω}

theorem alone_bind (hm : m.alone w = (.ok a, w')) : (m >>= k).alone w = (k a).alone w' := by
  change (m.bind k).alone w = _
  induction m generalizing w with
  | returned b =>
    obtain ⟨rfl, rfl⟩ : b = a ∧ w = w' := by simpa [Worker.alone] using hm
    rfl
  | raised e => simp [Worker.alone] at hm
  | request kind f next ih => exact ih _ hm

theorem alone_handle_ok (hm : m.alone w = (.ok a, w')) : (handle h m).alone w = (.ok a, w') := by
  induction m generalizing w with
  | returned b => exact hm
  | raised e => simp [Worker.alone] at hm
  | request kind f next ih => exact ih _ hm

theorem alone_handle_error (hm : m.alone w = (.error e, w')) :
    (handle h m).alone w = (h e).alone w' := by
  induction m generalizing w with
  | returned b => simp [Worker.alone] at hm
  | raised e' =>
    obtain ⟨rfl, rfl⟩ : e' = e ∧ w = w' := by simpa [Worker.alone] using hm
    rfl
  | request kind f next ih => exact ih _ hm

theorem alone_send {kind : κ} {f : ω → Except ε α × ω} : (send kind f).alone w = f w := by
  unfold send Worker.alone
  cases hreply : (f w).1 with
  | ok a => exact Prod.ext hreply.symm rfl
  | error e => exact Prod.ext hreply.symm rfl

end Programs

section Systems

variable {fault : κ → ε → Prop}

/-- The next request of a worker is served. -/
inductive Moves (fault : κ → ε → Prop) :
    ω → Worker κ ω ε α → ω → Worker κ ω ε α → Prop
  | answered {β : Type} {w : ω} {kind : κ} {f : ω → Except ε β × ω}
      {next : Except ε β → Worker κ ω ε α} :
      Moves fault w (.request kind f next) (f w).2 (next (f w).1)
  | lost {β : Type} {w : ω} {kind : κ} {f : ω → Except ε β × ω}
      {next : Except ε β → Worker κ ω ε α} {e : ε} (h : fault kind e) :
      Moves fault w (.request kind f next) w (next (.error e))
  | unanswered {β : Type} {w : ω} {kind : κ} {f : ω → Except ε β × ω}
      {next : Except ε β → Worker κ ω ε α} {e : ε} (h : fault kind e) :
      Moves fault w (.request kind f next) (f w).2 (next (.error e))

structure System (ι κ ω ε α : Type) where
  world : ω
  workers : ι → Worker κ ω ε α

/-- A worker moves, and the others stay where they are. -/
def Step (fault : κ → ε → Prop) (i : ι) (s s' : System ι κ ω ε α) : Prop :=
  Moves fault s.world (s.workers i) s'.world (s'.workers i) ∧
    ∀ j, j ≠ i → s'.workers j = s.workers j

/-- The moves of the workers in any order. -/
def Reaches (fault : κ → ε → Prop) : System ι κ ω ε α → System ι κ ω ε α → Prop :=
  Relation.ReflTransGen fun s s' => ∃ i, Step fault i s s'

end Systems

section Contracts

/-- What a worker may count on from the others, and what they may count on from it. -/
structure Contract (ω : Type) where
  rely : ω → ω → Prop
  guarantee : ω → ω → Prop
  rely_refl : ∀ w, rely w w
  rely_trans : ∀ {u v w}, rely u v → rely v w → rely u w
  guarantee_refl : ∀ w, guarantee w w

/-- What the others cannot make false. -/
def Stable (contract : Contract ω) (p : ω → Prop) : Prop :=
  ∀ w w', p w → contract.rely w w' → p w'

/-- Whatever the others do, each move of the worker keeps its guarantee, and it ends as it
should. -/
def Safe (fault : κ → ε → Prop) (contract : Contract ω) (post : α → ω → Prop)
    (failed : ε → ω → Prop) : Worker κ ω ε α → ω → Prop
  | .returned a, w => post a w
  | .raised e, w => failed e w
  | .request kind f next, w => ∀ w', contract.rely w w' →
      contract.guarantee w' (f w').2 ∧
        Safe fault contract post failed (next (f w').1) (f w').2 ∧
        ∀ e, fault kind e → Safe fault contract post failed (next (.error e)) w' ∧
          Safe fault contract post failed (next (.error e)) (f w').2

/-- A worker that starts in `pre` is safe. -/
def Does (fault : κ → ε → Prop) (contract : Contract ω) (pre : ω → Prop) (m : Worker κ ω ε α)
    (post : α → ω → Prop) (failed : ε → ω → Prop) : Prop :=
  ∀ w, pre w → Safe fault contract post failed m w

variable {fault : κ → ε → Prop} {contract : Contract ω} {pre pre' : ω → Prop}
  {post post' : α → ω → Prop} {last : β → ω → Prop} {failed failed' : ε → ω → Prop}
  {m : Worker κ ω ε α}

theorem Stable.and {p p' : ω → Prop} (hp : Stable contract p) (hp' : Stable contract p') :
    Stable contract fun w => p w ∧ p' w :=
  fun w w' hw hrely => ⟨hp w w' hw.1 hrely, hp' w w' hw.2 hrely⟩

theorem Safe.mono (hpost : ∀ a w, post a w → post' a w) (hfailed : ∀ e w, failed e w → failed' e w)
    {w : ω} (h : Safe fault contract post failed m w) : Safe fault contract post' failed' m w := by
  induction m generalizing w with
  | returned a => exact hpost a w h
  | raised e => exact hfailed e w h
  | request kind f next ih =>
    intro w' hrely
    obtain ⟨hguarantee, hnext, hfault⟩ := h w' hrely
    exact ⟨hguarantee, ih _ hnext, fun e he => ⟨ih _ (hfault e he).1, ih _ (hfault e he).2⟩⟩

theorem Does.weaken (h : Does fault contract pre m post failed) (hpre : ∀ w, pre' w → pre w) :
    Does fault contract pre' m post failed :=
  fun w hw => h w (hpre w hw)

theorem Does.mono (h : Does fault contract pre m post failed)
    (hpost : ∀ a w, post a w → post' a w) (hfailed : ∀ e w, failed e w → failed' e w) :
    Does fault contract pre m post' failed' :=
  fun w hw => (h w hw).mono hpost hfailed

/-- A fact that holds before the worker starts can be assumed for it. -/
theorem Does.assume {p : Prop} (h : p → Does fault contract pre m post failed) :
    Does fault contract (fun w => p ∧ pre w) m post failed :=
  fun w hw => h hw.1 w hw.2

theorem does_returned {a : α} (h : ∀ w, pre w → post a w) :
    Does fault contract pre (pure a : Worker κ ω ε α) post failed := h

theorem does_raise {e : ε} (h : ∀ w, pre w → failed e w) :
    Does fault contract pre (raise e : Worker κ ω ε α) post failed := h

theorem does_absurd : Does fault contract (fun _ => False) m post failed :=
  fun _ hw => hw.elim

theorem Does.bind {k : α → Worker κ ω ε β} (hm : Does fault contract pre m post failed)
    (hk : ∀ a, Does fault contract (post a) (k a) last failed) :
    Does fault contract pre (m >>= k) last failed := by
  intro w hw
  replace hm := hm w hw
  clear hw
  change Safe fault contract last failed (m.bind k) w
  induction m generalizing w with
  | returned a => exact hk a w hm
  | raised e => exact hm
  | request kind f next ih =>
    intro w' hrely
    obtain ⟨hguarantee, hnext, hfault⟩ := hm w' hrely
    exact ⟨hguarantee, ih _ _ hnext, fun e he => ⟨ih _ _ (hfault e he).1, ih _ _ (hfault e he).2⟩⟩

theorem Does.handle {h : ε → Worker κ ω ε α} (hm : Does fault contract pre m post failed)
    (hh : ∀ e, Does fault contract (failed e) (h e) post failed') :
    Does fault contract pre (handle h m) post failed' := by
  intro w hw
  replace hm := hm w hw
  clear hw
  induction m generalizing w with
  | returned a => exact hm
  | raised e => exact hh e w hm
  | request kind f next ih =>
    intro w' hrely
    obtain ⟨hguarantee, hnext, hfault⟩ := hm w' hrely
    exact ⟨hguarantee, ih _ _ hnext, fun e he => ⟨ih _ _ (hfault e he).1, ih _ _ (hfault e he).2⟩⟩

/-- A request is judged by its effect, its reply, and its failure with or without the
effect. -/
theorem does_send {kind : κ} {f : ω → Except ε α × ω} (hstable : Stable contract pre)
    (hguarantee : ∀ w, pre w → contract.guarantee w (f w).2)
    (hok : ∀ w a, pre w → (f w).1 = .ok a → post a (f w).2)
    (herror : ∀ w e, pre w → (f w).1 = .error e → failed e (f w).2)
    (hfault : ∀ w e, pre w → fault kind e → failed e w ∧ failed e (f w).2) :
    Does fault contract pre (send kind f) post failed := by
  intro w hw w' hrely
  have hw' := hstable w w' hw hrely
  refine ⟨hguarantee w' hw', ?_, fun e he => hfault w' e hw' he⟩
  cases hreply : (f w').1 with
  | ok a => exact hok w' a hw' hreply
  | error e => exact herror w' e hw' hreply

end Contracts

section Runs

variable {fault : κ → ε → Prop} {contract : ι → Contract ω} {post : ι → α → ω → Prop}
  {failed : ι → ε → ω → Prop} {s s' : System ι κ ω ε α}

/-- Workers whose guarantees are what the others count on. -/
structure Cooperate (contract : ι → Contract ω) (post : ι → α → ω → Prop)
    (failed : ι → ε → ω → Prop) : Prop where
  others : ∀ i j, j ≠ i → ∀ w w', (contract i).guarantee w w' → (contract j).rely w w'
  post : ∀ i a, Stable (contract i) (post i a)
  failed : ∀ i e, Stable (contract i) (failed i e)

/-- What the others do leaves a worker safe. -/
theorem Safe.others {contract : Contract ω} {post : α → ω → Prop} {failed : ε → ω → Prop}
    {m : Worker κ ω ε α} {w w' : ω} (hpost : ∀ a, Stable contract (post a))
    (hfailed : ∀ e, Stable contract (failed e)) (h : Safe fault contract post failed m w)
    (hrely : contract.rely w w') : Safe fault contract post failed m w' := by
  cases m with
  | returned a => exact hpost a w w' h hrely
  | raised e => exact hfailed e w w' h hrely
  | request kind f next => exact fun w'' hrely' => h w'' (contract.rely_trans hrely hrely')

theorem Safe.moves {contract : Contract ω} {post : α → ω → Prop} {failed : ε → ω → Prop}
    {m m' : Worker κ ω ε α} {w w' : ω} (h : Safe fault contract post failed m w)
    (hmoves : Moves fault w m w' m') :
    contract.guarantee w w' ∧ Safe fault contract post failed m' w' := by
  cases hmoves with
  | answered =>
    obtain ⟨hguarantee, hnext, -⟩ := h w (contract.rely_refl w)
    exact ⟨hguarantee, hnext⟩
  | lost he =>
    obtain ⟨-, -, hfault⟩ := h w (contract.rely_refl w)
    exact ⟨contract.guarantee_refl w, (hfault _ he).1⟩
  | unanswered he =>
    obtain ⟨hguarantee, -, hfault⟩ := h w (contract.rely_refl w)
    exact ⟨hguarantee, (hfault _ he).2⟩

theorem Cooperate.step (hcooperate : Cooperate contract post failed)
    (h : ∀ j, Safe fault (contract j) (post j) (failed j) (s.workers j) s.world) {i : ι}
    (hstep : Step fault i s s') :
    (contract i).guarantee s.world s'.world ∧
      ∀ j, Safe fault (contract j) (post j) (failed j) (s'.workers j) s'.world := by
  obtain ⟨hguarantee, hsafe⟩ := (h i).moves hstep.1
  refine ⟨hguarantee, fun j => ?_⟩
  by_cases hj : j = i
  · rw [hj]
    exact hsafe
  · rw [hstep.2 j hj]
    exact (h j).others (hcooperate.post j) (hcooperate.failed j)
      (hcooperate.others i j hj _ _ hguarantee)

/-- In a run of workers that cooperate every move keeps its guarantee. -/
theorem Cooperate.reaches (hcooperate : Cooperate contract post failed)
    (h : ∀ j, Safe fault (contract j) (post j) (failed j) (s.workers j) s.world)
    (hrun : Reaches fault s s') :
    Relation.ReflTransGen (fun w w' => ∃ i, (contract i).guarantee w w') s.world s'.world ∧
      ∀ j, Safe fault (contract j) (post j) (failed j) (s'.workers j) s'.world := by
  induction hrun with
  | refl => exact ⟨.refl, h⟩
  | tail _ hstep ih =>
    obtain ⟨i, hstep⟩ := hstep
    obtain ⟨hguarantee, hsafe⟩ := hcooperate.step ih.2 hstep
    exact ⟨ih.1.tail ⟨i, hguarantee⟩, hsafe⟩

/-- A worker that runs alone is one of the runs of the system. -/
theorem reaches_alone (i : ι) [DecidableEq ι] (s : System ι κ ω ε α) :
    ∃ s', Reaches fault s s' ∧ s'.world = ((s.workers i).alone s.world).2 ∧
      s'.workers i = (match ((s.workers i).alone s.world).1 with
        | .ok a => .returned a
        | .error e => .raised e) := by
  obtain ⟨w, workers⟩ := s
  dsimp only
  generalize hm : workers i = m
  induction m generalizing w workers with
  | returned a => exact ⟨⟨w, workers⟩, .refl, rfl, hm⟩
  | raised e => exact ⟨⟨w, workers⟩, .refl, rfl, hm⟩
  | request kind f next ih =>
    obtain ⟨s', hrun, hworld, hend⟩ := ih _ (f w).2 (Function.update workers i (next (f w).1))
      (Function.update_self ..)
    refine ⟨s', .head ⟨i, ?_, fun j hj => ?_⟩ hrun, hworld, hend⟩
    · simp only [Function.update_self, hm]
      exact .answered
    · exact Function.update_of_ne hj _ _

end Runs

end ConfigBackup.Workers
