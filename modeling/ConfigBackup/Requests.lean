import Mathlib.Tactic.Common

/-!
Programs of a client that sends requests to a server. A request that fails may or may
not have taken effect, which an oracle on the requests decides. The worlds that a run
has passed are kept, so that an assertion can speak about every moment of it.
-/

namespace ConfigBackup.Requests

/-- A request is answered, or it fails before or after its effect. -/
inductive Fate
  | answered | lost | unanswered
deriving DecidableEq, Repr

structure Client (ω : Type) where
  world : ω
  passed : List ω

abbrev Requests (ω ε α : Type) := EStateM ε (Client ω) α

variable {ω ε α β : Type}

section Programs

/-- Send the next request; `f` is its reply and its effect. -/
def request (fates : ℕ → Fate) (failure : ε) (f : ω → Except ε α × ω) : Requests ω ε α := fun c =>
  match fates c.passed.length with
  | .lost => .error failure ⟨c.world, c.passed ++ [c.world]⟩
  | .unanswered => .error failure ⟨(f c.world).2, c.passed ++ [c.world]⟩
  | .answered =>
    match (f c.world).1 with
    | .ok a => .ok a ⟨(f c.world).2, c.passed ++ [c.world]⟩
    | .error e => .error e ⟨(f c.world).2, c.passed ++ [c.world]⟩

/-- `try`: what was raised goes to the handler, and no effect is undone. -/
def handle (m : Requests ω ε α) (h : ε → Requests ω ε α) : Requests ω ε α := fun c =>
  match m c with
  | .ok a d => .ok a d
  | .error e d => h e d

/-- `try`: what was raised is a value that the program goes on with. -/
def attempt (m : Requests ω ε α) : Requests ω ε (Except ε α) := fun c =>
  match m c with
  | .ok a d => .ok (.ok a) d
  | .error e d => .ok (.error e) d

variable {m : Requests ω ε α} {f : α → Requests ω ε β} {h : ε → Requests ω ε α} {a : α} {e : ε}
  {c d : Client ω}

theorem bind_ok (hm : m c = .ok a d) : (m >>= f) c = f a d := by
  simp only [bind, EStateM.bind, hm]

theorem bind_error (hm : m c = .error e d) : (m >>= f) c = .error e d := by
  simp only [bind, EStateM.bind, hm]

theorem handle_ok (hm : m c = .ok a d) : handle m h c = .ok a d := by
  simp only [handle, hm]

theorem handle_error (hm : m c = .error e d) : handle m h c = h e d := by
  simp only [handle, hm]

end Programs

section Triples

variable {inv pre pre' : ω → Prop} {post : α → ω → Prop} {last : β → ω → Prop}
  {raised raised' : ε → ω → Prop}

/-- From a world in `pre` the program returns in `post` or raises in `raised`, and every
world that it passes satisfies `inv`. -/
def Runs (inv pre : ω → Prop) (m : Requests ω ε α) (post : α → ω → Prop)
    (raised : ε → ω → Prop) : Prop :=
  ∀ c, (∀ w ∈ c.passed, inv w) → pre c.world →
    match m c with
    | .ok a d => (∀ w ∈ d.passed, inv w) ∧ post a d.world
    | .error e d => (∀ w ∈ d.passed, inv w) ∧ raised e d.world

theorem passed_snoc {c : Client ω} (hpassed : ∀ w ∈ c.passed, inv w) (hworld : inv c.world) :
    ∀ w ∈ c.passed ++ [c.world], inv w := by
  intro w hw
  rcases List.mem_append.mp hw with hw | hw
  · exact hpassed w hw
  · rw [List.mem_singleton.mp hw]
    exact hworld

theorem Runs.weaken {m : Requests ω ε α} (h : Runs inv pre m post raised)
    (hpre : ∀ w, pre' w → pre w) : Runs inv pre' m post raised :=
  fun c hpassed hc => h c hpassed (hpre _ hc)

theorem Runs.mono {post' : α → ω → Prop} {m : Requests ω ε α} (h : Runs inv pre m post raised)
    (hpost : ∀ a w, post a w → post' a w) (hraised : ∀ e w, raised e w → raised' e w) :
    Runs inv pre m post' raised' := by
  intro c hpassed hc
  have hrun := h c hpassed hc
  cases hm : m c with
  | ok a d =>
    rw [hm] at hrun
    exact ⟨hrun.1, hpost _ _ hrun.2⟩
  | error e d =>
    rw [hm] at hrun
    exact ⟨hrun.1, hraised _ _ hrun.2⟩

/-- Two things that are known of one run. -/
theorem Runs.and {post' : α → ω → Prop} {m : Requests ω ε α} (h : Runs inv pre m post raised)
    (h' : Runs inv pre m post' raised') :
    Runs inv pre m (fun a w => post a w ∧ post' a w) fun e w => raised e w ∧ raised' e w := by
  intro c hpassed hc
  have hrun := h c hpassed hc
  have hrun' := h' c hpassed hc
  cases hm : m c with
  | ok a d =>
    rw [hm] at hrun hrun'
    exact ⟨hrun.1, hrun.2, hrun'.2⟩
  | error e d =>
    rw [hm] at hrun hrun'
    exact ⟨hrun.1, hrun.2, hrun'.2⟩

/-- A fact that holds before the program can be assumed for it. -/
theorem Runs.assume {p : Prop} {m : Requests ω ε α} (h : p → Runs inv pre m post raised) :
    Runs inv (fun w => p ∧ pre w) m post raised :=
  fun c hpassed hc => h hc.1 c hpassed hc.2

theorem Runs.bind {m : Requests ω ε α} {f : α → Requests ω ε β}
    (hm : Runs inv pre m post raised) (hf : ∀ a, Runs inv (post a) (f a) last raised) :
    Runs inv pre (m >>= f) last raised := by
  intro c hpassed hc
  have hfirst := hm c hpassed hc
  simp only [Bind.bind, EStateM.bind]
  cases hrun : m c with
  | error e d =>
    rw [hrun] at hfirst
    exact hfirst
  | ok a d =>
    rw [hrun] at hfirst
    exact hf a d hfirst.1 hfirst.2

theorem Runs.handle {m : Requests ω ε α} {h : ε → Requests ω ε α}
    (hm : Runs inv pre m post raised) (hh : ∀ e, Runs inv (raised e) (h e) post raised') :
    Runs inv pre (handle m h) post raised' := by
  intro c hpassed hc
  have hfirst := hm c hpassed hc
  unfold Requests.handle
  cases hrun : m c with
  | error e d =>
    rw [hrun] at hfirst
    exact hh e d hfirst.1 hfirst.2
  | ok a d =>
    rw [hrun] at hfirst
    exact hfirst

/-- What holds of a result, or of what was raised. -/
def Attempted (post : α → ω → Prop) (raised : ε → ω → Prop) : Except ε α → ω → Prop
  | .ok a, w => post a w
  | .error e, w => raised e w

theorem Runs.attempt {m : Requests ω ε α} (h : Runs inv pre m post raised) :
    Runs inv pre (attempt m) (Attempted post raised) raised' := by
  intro c hpassed hc
  have hrun := h c hpassed hc
  unfold Requests.attempt
  cases hm : m c with
  | ok a d =>
    rw [hm] at hrun
    exact hrun
  | error e d =>
    rw [hm] at hrun
    exact hrun

theorem runs_pure {a : α} (h : ∀ w, pre w → post a w) :
    Runs inv pre (pure a : Requests ω ε α) post raised :=
  fun c hpassed hc => ⟨hpassed, h c.world hc⟩

theorem runs_throw {e : ε} (h : ∀ w, pre w → raised e w) :
    Runs inv pre (throw e : Requests ω ε α) post raised :=
  fun c hpassed hc => ⟨hpassed, h c.world hc⟩

theorem runs_absurd {m : Requests ω ε α} : Runs inv (fun _ => False) m post raised :=
  fun _ _ hc => hc.elim

/-- A request is judged by its effect, its reply, and its failure with or without the
effect. -/
theorem runs_request {fates : ℕ → Fate} {failure : ε} {f : ω → Except ε α × ω}
    (hinv : ∀ w, pre w → inv w) (hlost : ∀ w, pre w → raised failure w)
    (hunanswered : ∀ w, pre w → raised failure (f w).2)
    (hok : ∀ w a, pre w → (f w).1 = .ok a → post a (f w).2)
    (herror : ∀ w e, pre w → (f w).1 = .error e → raised e (f w).2) :
    Runs inv pre (request fates failure f) post raised := by
  intro c hpassed hc
  have hnext := passed_snoc hpassed (hinv _ hc)
  unfold request
  cases fates c.passed.length with
  | lost => exact ⟨hnext, hlost _ hc⟩
  | unanswered => exact ⟨hnext, hunanswered _ hc⟩
  | answered =>
    cases hreply : (f c.world).1 with
    | ok a => exact ⟨hnext, hok _ _ hc hreply⟩
    | error e => exact ⟨hnext, herror _ _ hc hreply⟩

/-- A moment of a run, from its first world to its last. -/
def Moment (m : Requests ω ε α) (start w : ω) : Prop :=
  match m ⟨start, []⟩ with
  | .ok _ d => w ∈ d.passed ∨ w = d.world
  | .error _ d => w ∈ d.passed ∨ w = d.world

theorem exists_moment (m : Requests ω ε α) (start : ω) : ∃ w, Moment m start w := by
  unfold Moment
  cases m ⟨start, []⟩ with
  | ok result d => exact ⟨d.world, Or.inr rfl⟩
  | error e d => exact ⟨d.world, Or.inr rfl⟩

/-- What holds throughout a program holds at every moment of a run. -/
theorem Runs.moment {m : Requests ω ε α} (h : Runs inv pre m post raised) {start w : ω}
    (hstart : pre start) (hpost : ∀ a w, post a w → inv w) (hraised : ∀ e w, raised e w → inv w)
    (hmoment : Moment m start w) : inv w := by
  have hrun := h ⟨start, []⟩ nofun hstart
  unfold Moment at hmoment
  cases hresult : m ⟨start, []⟩ with
  | ok result d =>
    rw [hresult] at hrun hmoment
    rcases hmoment with hmem | rfl
    · exact hrun.1 w hmem
    · exact hpost _ _ hrun.2
  | error e d =>
    rw [hresult] at hrun hmoment
    rcases hmoment with hmem | rfl
    · exact hrun.1 w hmem
    · exact hraised _ _ hrun.2

theorem Runs.result {m : Requests ω ε α} (h : Runs inv pre m post raised) {start : ω}
    (hstart : pre start) {a : α} {d : Client ω} (hresult : m ⟨start, []⟩ = .ok a d) :
    post a d.world := by
  have hrun := h ⟨start, []⟩ nofun hstart
  rw [hresult] at hrun
  exact hrun.2

end Triples

end ConfigBackup.Requests
