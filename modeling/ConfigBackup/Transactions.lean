import Mathlib.Tactic.Common

/-!
Programs over a database and an outside world in which any call may fail. The
calls of a program are numbered, so an oracle on the numbers decides which of them
fail. An exception leaves the outside world as it is at that moment; a transaction
puts the database back when its body or its commit raises.
-/

namespace ConfigBackup.Transactions

structure Session (δ ω : Type) where
  db : δ
  world : ω
  calls : ℕ

abbrev Program (δ ω ε α : Type) := EStateM ε (Session δ ω) α

variable {δ ω ε α β : Type}

section Programs

/-- The number of a call whose answer comes from an oracle. -/
def nextCall : Program δ ω ε ℕ := fun s => .ok s.calls { s with calls := s.calls + 1 }

/-- A statement reads and writes the database, unless it fails. -/
def statement (fails : ℕ → Bool) (failure : ε) (f : δ → α × δ) : Program δ ω ε α := fun s =>
  if fails s.calls then .error failure { s with calls := s.calls + 1 }
  else .ok (f s.db).1 { s with db := (f s.db).2, calls := s.calls + 1 }

/-- A query, which writes nothing. -/
def select (fails : ℕ → Bool) (failure : ε) (f : δ → α) : Program δ ω ε α :=
  statement fails failure (fun db => (f db, db))

/-- A query for one row, which raises when there is none. -/
def require (fails : ℕ → Bool) (failure missing : ε) (f : δ → Option α) : Program δ ω ε α := do
  match ← select fails failure f with
  | none => throw missing
  | some a => pure a

def update (fails : ℕ → Bool) (failure : ε) (f : δ → δ) : Program δ ω ε Unit :=
  statement fails failure (fun db => ((), f db))

/-- A transaction of its own, which raises without a write when it fails. -/
def transact (fails : ℕ → Bool) (failure : ε) (f : δ → Except ε (α × δ)) :
    Program δ ω ε α := fun s =>
  if fails s.calls then .error failure { s with calls := s.calls + 1 }
  else
    match f s.db with
    | .error e => .error e { s with calls := s.calls + 1 }
    | .ok (a, db) => .ok a { s with db := db, calls := s.calls + 1 }

/-- An action on the outside world, which raises without an effect when it fails. -/
def action (fails : ℕ → Bool) (failure : ε) (f : ω → Except ε (α × ω)) :
    Program δ ω ε α := fun s =>
  if fails s.calls then .error failure { s with calls := s.calls + 1 }
  else
    match f s.world with
    | .error e => .error e { s with calls := s.calls + 1 }
    | .ok (a, world) => .ok a { s with world := world, calls := s.calls + 1 }

/-- Run a body whose writes are kept only when it returns and its commit succeeds. -/
def atomic (fails : ℕ → Bool) (failure : ε) (body : Program δ ω ε α) : Program δ ω ε α := fun s =>
  match body s with
  | .error e t => .error e { t with db := s.db }
  | .ok a t =>
    if fails t.calls then .error failure { t with db := s.db, calls := t.calls + 1 }
    else .ok a { t with calls := t.calls + 1 }

end Programs

section Returns

/-- The program returns `a` in the session `t`. -/
def Returns (m : Program δ ω ε α) (s : Session δ ω) (a : α) (t : Session δ ω) : Prop :=
  m s = .ok a t

theorem returns_bind {m : Program δ ω ε α} {f : α → Program δ ω ε β} {s t : Session δ ω} {b : β} :
    Returns (m >>= f) s b t ↔ ∃ a u, Returns m s a u ∧ Returns (f a) u b t := by
  unfold Returns
  simp only [bind, EStateM.bind]
  cases m s with
  | ok a u =>
    constructor
    · intro h
      exact ⟨a, u, rfl, h⟩
    · rintro ⟨a', u', heq, h⟩
      cases heq
      exact h
  | error e u =>
    constructor
    · intro h
      cases h
    · rintro ⟨_, _, heq, _⟩
      cases heq

theorem returns_pure {s t : Session δ ω} {a b : α} :
    Returns (pure a : Program δ ω ε α) s b t ↔ a = b ∧ s = t := by
  show EStateM.Result.ok a s = .ok b t ↔ _
  simp

theorem not_returns_throw {s t : Session δ ω} {a : α} {e : ε} :
    ¬ Returns (throw e : Program δ ω ε α) s a t := fun h => by cases h

theorem returns_ofExcept {x : Except ε α} {s t : Session δ ω} {a : α} :
    Returns (ofExcept x : Program δ ω ε α) s a t ↔ x = .ok a ∧ s = t := by
  cases x with
  | ok b =>
    show EStateM.Result.ok b s = .ok a t ↔ _
    simp
  | error e =>
    constructor
    · intro h
      cases h
    · rintro ⟨h, _⟩
      cases h

theorem returns_nextCall {s t : Session δ ω} {n : ℕ} :
    Returns (nextCall : Program δ ω ε ℕ) s n t ↔
      s.calls = n ∧ { s with calls := s.calls + 1 } = t := by
  show EStateM.Result.ok s.calls _ = .ok n t ↔ _
  simp

theorem returns_statement {fails : ℕ → Bool} {failure : ε} {f : δ → α × δ} {s t : Session δ ω}
    {a : α} (h : Returns (statement fails failure f) s a t) :
    (f s.db).1 = a ∧ t.db = (f s.db).2 ∧ t.world = s.world := by
  unfold Returns statement at h
  split at h
  · cases h
  · cases h
    exact ⟨rfl, rfl, rfl⟩

/-- A transaction that returns has kept the writes of its body. -/
theorem returns_atomic {fails : ℕ → Bool} {failure : ε} {body : Program δ ω ε α}
    {s t : Session δ ω} {a : α} (h : Returns (atomic fails failure body) s a t) :
    ∃ u, Returns body s a u ∧ t.db = u.db ∧ t.world = u.world := by
  unfold Returns atomic at h
  split at h
  · cases h
  · rename_i b u hbody
    split at h
    · cases h
    · cases h
      exact ⟨u, hbody, rfl, rfl⟩

/-- A transaction that raises has written nothing. -/
theorem atomic_raises {fails : ℕ → Bool} {failure e : ε} {body : Program δ ω ε α}
    {s t : Session δ ω} (h : atomic fails failure body s = .error e t) : t.db = s.db := by
  unfold atomic at h
  split at h
  · cases h
    rfl
  · split at h
    · cases h
      rfl
    · cases h

end Returns

section Raises

variable {fails : ℕ → Bool} {failure e : ε} {f : δ → Except ε (α × δ)} {s : Session δ ω}
  {g : α → Program δ ω ε β}

/-- What `transact` does when it neither fails nor raises. -/
theorem transact_eq_ok (a : α) (db : δ) (hfails : fails s.calls = false)
    (hf : f s.db = .ok (a, db)) :
    transact fails failure f s = .ok a { s with db := db, calls := s.calls + 1 } := by
  unfold transact
  rw [if_neg (by simp [hfails]), hf]

/-- A transaction either raises without a write or keeps what it computed. -/
theorem transact_cases (fails : ℕ → Bool) (failure : ε) (f : δ → Except ε (α × δ))
    (s : Session δ ω) :
    (∃ e, transact fails failure f s = .error e { s with calls := s.calls + 1 }) ∨
      (fails s.calls = false ∧ ∃ a db, f s.db = .ok (a, db) ∧
        transact fails failure f s = .ok a { s with db := db, calls := s.calls + 1 }) := by
  cases hfails : fails s.calls with
  | true =>
    refine Or.inl ⟨failure, ?_⟩
    unfold transact
    rw [if_pos hfails]
  | false =>
    cases hf : f s.db with
    | error e =>
      refine Or.inl ⟨e, ?_⟩
      unfold transact
      rw [if_neg (by simp [hfails]), hf]
    | ok result => exact Or.inr ⟨rfl, result.1, result.2, rfl, transact_eq_ok _ _ hfails hf⟩

theorem ofExcept_ok (a : α) (s : Session δ ω) :
    (ofExcept (.ok a : Except ε α) : Program δ ω ε α) s = .ok a s := rfl

theorem ofExcept_error (e : ε) (s : Session δ ω) :
    (ofExcept (.error e : Except ε α) : Program δ ω ε α) s = .error e s := rfl

theorem bind_of_ok {m : Program δ ω ε α} {a : α} {t : Session δ ω} (h : m s = .ok a t) :
    (m >>= g) s = g a t := by
  simp only [bind, EStateM.bind, h]

theorem bind_of_error {m : Program δ ω ε α} {t : Session δ ω} (h : m s = .error e t) :
    (m >>= g) s = .error e t := by
  simp only [bind, EStateM.bind, h]

end Raises

section Triples

variable {pre pre' : δ → ω → Prop} {post : α → δ → ω → Prop} {last : β → δ → ω → Prop}
  {raised : δ → ω → Prop}

/-- From a session in `pre` the program returns in `post` or raises in `raised`. -/
def Triple (pre : δ → ω → Prop) (m : Program δ ω ε α) (post : α → δ → ω → Prop)
    (raised : δ → ω → Prop) : Prop :=
  ∀ s, pre s.db s.world →
    match m s with
    | .ok a t => post a t.db t.world
    | .error _ t => raised t.db t.world

theorem Triple.weaken {m : Program δ ω ε α} (h : Triple pre m post raised)
    (hpre : ∀ db w, pre' db w → pre db w) : Triple pre' m post raised :=
  fun s hs => h s (hpre _ _ hs)

theorem Triple.mono {post' : α → δ → ω → Prop} {raised' : δ → ω → Prop} {m : Program δ ω ε α}
    (h : Triple pre m post raised) (hpost : ∀ a db w, post a db w → post' a db w)
    (hraised : ∀ db w, raised db w → raised' db w) : Triple pre m post' raised' := by
  intro s hs
  have hrun := h s hs
  cases hm : m s with
  | ok a t =>
    rw [hm] at hrun
    exact hpost _ _ _ hrun
  | error e t =>
    rw [hm] at hrun
    exact hraised _ _ hrun

/-- A fact that holds before the program can be assumed for it. -/
theorem Triple.assume {p : Prop} {m : Program δ ω ε α} (h : p → Triple pre m post raised) :
    Triple (fun db w => p ∧ pre db w) m post raised :=
  fun s hs => h hs.1 s hs.2

theorem Triple.bind {m : Program δ ω ε α} {f : α → Program δ ω ε β}
    (hm : Triple pre m post raised) (hf : ∀ a, Triple (post a) (f a) last raised) :
    Triple pre (m >>= f) last raised := by
  intro s hs
  have hfirst := hm s hs
  simp only [Bind.bind, EStateM.bind]
  cases hrun : m s with
  | error e t =>
    rw [hrun] at hfirst
    exact hfirst
  | ok a t =>
    rw [hrun] at hfirst
    exact hf a t hfirst

theorem triple_pure {a : α} (h : ∀ db w, pre db w → post a db w) :
    Triple pre (pure a : Program δ ω ε α) post raised :=
  fun s hs => h s.db s.world hs

theorem triple_throw {e : ε} (h : ∀ db w, pre db w → raised db w) :
    Triple pre (throw e : Program δ ω ε α) post raised :=
  fun s hs => h s.db s.world hs

theorem triple_ofExcept {x : Except ε α} (hok : ∀ a, x = .ok a → ∀ db w, pre db w → post a db w)
    (herror : ∀ db w, pre db w → raised db w) :
    Triple pre (ofExcept x : Program δ ω ε α) post raised := by
  intro s hs
  cases hx : x with
  | ok a => exact hok a hx _ _ hs
  | error e => exact herror _ _ hs

theorem triple_statement {fails : ℕ → Bool} {failure : ε} {f : δ → α × δ}
    (hok : ∀ db w, pre db w → post (f db).1 (f db).2 w)
    (herror : ∀ db w, pre db w → raised db w) :
    Triple pre (statement fails failure f : Program δ ω ε α) post raised := by
  intro s hs
  unfold statement
  by_cases hfails : fails s.calls = true
  · rw [if_pos hfails]
    exact herror _ _ hs
  · rw [if_neg hfails]
    exact hok _ _ hs

theorem triple_select {fails : ℕ → Bool} {failure : ε} {f : δ → α} {start : δ} {inv : ω → Prop}
    (hraised : ∀ db w, db = start ∧ inv w → raised db w) :
    Triple (fun db w => db = start ∧ inv w) (select fails failure f : Program δ ω ε α)
      (fun a db w => a = f start ∧ db = start ∧ inv w) raised :=
  triple_statement (fun db w h => ⟨by rw [h.1], h.1, h.2⟩) hraised

theorem triple_require {fails : ℕ → Bool} {failure missing : ε} {f : δ → Option α} {start : δ}
    {inv : ω → Prop} (hraised : ∀ db w, db = start ∧ inv w → raised db w) :
    Triple (fun db w => db = start ∧ inv w) (require fails failure missing f : Program δ ω ε α)
      (fun a db w => f start = some a ∧ db = start ∧ inv w) raised := by
  refine (triple_select hraised).bind (fun found => ?_)
  refine Triple.assume (fun hfound => ?_)
  cases found with
  | none => exact triple_throw hraised
  | some a => exact triple_pure (fun db w h => ⟨hfound.symm, h⟩)

theorem triple_update {fails : ℕ → Bool} {failure : ε} {f : δ → δ} {start : δ} {inv : ω → Prop}
    (hraised : ∀ db w, db = start ∧ inv w → raised db w) :
    Triple (fun db w => db = start ∧ inv w) (update fails failure f : Program δ ω ε Unit)
      (fun _ db w => db = f start ∧ inv w) raised :=
  triple_statement (fun db w h => ⟨by rw [h.1], h.2⟩) hraised

/-- A query keeps every assertion. -/
theorem triple_select_keeps {fails : ℕ → Bool} {failure : ε} {f : δ → α}
    (hraised : ∀ db w, pre db w → raised db w) :
    Triple pre (select fails failure f : Program δ ω ε α) (fun _ => pre) raised :=
  triple_statement (fun _ _ h => h) hraised

theorem triple_update_keeps {fails : ℕ → Bool} {failure : ε} {f : δ → δ}
    (hkeep : ∀ db w, pre db w → pre (f db) w) (hraised : ∀ db w, pre db w → raised db w) :
    Triple pre (update fails failure f : Program δ ω ε Unit) (fun _ => pre) raised :=
  triple_statement hkeep hraised

theorem triple_action {fails : ℕ → Bool} {failure : ε} {f : ω → Except ε (α × ω)}
    (hok : ∀ db w a w', pre db w → f w = .ok (a, w') → post a db w')
    (herror : ∀ db w, pre db w → raised db w) :
    Triple pre (action fails failure f : Program δ ω ε α) post raised := by
  intro s hs
  unfold action
  by_cases hfails : fails s.calls = true
  · rw [if_pos hfails]
    exact herror _ _ hs
  · rw [if_neg hfails]
    cases hf : f s.world with
    | error e => exact herror _ _ hs
    | ok result => exact hok _ _ _ _ hs hf

/-- A transaction that raises leaves the database it started from. -/
theorem triple_atomic {fails : ℕ → Bool} {failure : ε} {body : Program δ ω ε α} {db : δ}
    {start rolledBack : ω → Prop}
    (hbody : Triple (fun d w => d = db ∧ start w) body post (fun _ w => rolledBack w))
    (hcommit : ∀ a d w, post a d w → rolledBack w) :
    Triple (fun d w => d = db ∧ start w) (atomic fails failure body) post
      (fun d w => d = db ∧ rolledBack w) := by
  intro s hs
  have hrun := hbody s hs
  unfold atomic
  cases hb : body s with
  | error e t =>
    rw [hb] at hrun
    exact ⟨hs.1, hrun⟩
  | ok a t =>
    rw [hb] at hrun
    dsimp only
    by_cases hfails : fails t.calls = true
    · rw [if_pos hfails]
      exact ⟨hs.1, hcommit _ _ _ hrun⟩
    · rw [if_neg hfails]
      exact hrun

end Triples

end ConfigBackup.Transactions
