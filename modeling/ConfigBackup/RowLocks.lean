import ConfigBackup.Tables

/-!
Transactions with row locks at the read-committed level. The store holds the
committed rows; an open transaction holds the locks it has taken and a phase,
which also carries its reads and its writes that are still invisible. A lock is
taken only while no other open transaction holds it, and all locks of a
transaction are released when it ends.
-/

namespace ConfigBackup.RowLocks

open Tables

variable {σ κ τ : Type*}

structure Txn (κ τ : Type*) where
  pk : ℕ
  held : List κ
  phase : τ

structure State (σ κ τ : Type*) where
  store : σ
  txns : Table (Txn κ τ) Txn.pk

section Operations

/-- Another open transaction holds the lock. -/
def lockedByOther [DecidableEq κ] (s : State σ κ τ) (pk : ℕ) (k : κ) : Bool :=
  s.txns.rows.any (fun t => t.pk != pk && decide (k ∈ t.held))

def openTxn (s : State σ κ τ) (phase : τ) : State σ κ τ :=
  { s with txns := s.txns.insert (fun pk => ⟨pk, [], phase⟩) (fun _ => rfl) }

def moveTo (keys : List κ) (phase : τ) (t : Txn κ τ) : Txn κ τ :=
  { t with held := t.held ++ keys, phase := phase }

@[simp] theorem moveTo_pk (keys : List κ) (phase : τ) (t : Txn κ τ) :
    (moveTo keys phase t).pk = t.pk := rfl

/-- A statement of the transaction: it takes locks and moves to a new phase. -/
def advance (s : State σ κ τ) (pk : ℕ) (keys : List κ) (phase : τ) : State σ κ τ :=
  { s with txns := s.txns.update pk (moveTo keys phase) (moveTo_pk keys phase) }

/-- The commit makes the writes visible; a rollback ends with the same store. -/
def endTxn (s : State σ κ τ) (pk : ℕ) (store : σ) : State σ κ τ :=
  { store := store, txns := s.txns.filter (fun t => t.pk != pk) }

end Operations

section Rules

/-- What a fact about the store says of each open transaction. -/
def AllTxns (P : σ → Txn κ τ → Prop) (s : State σ κ τ) : Prop := ∀ t ∈ s.txns, P s.store t

/-- No two open transactions hold one lock. -/
def Exclusive (s : State σ κ τ) : Prop :=
  ∀ t ∈ s.txns, ∀ t' ∈ s.txns, ∀ k ∈ t.held, k ∈ t'.held → t = t'

variable {P : σ → Txn κ τ → Prop} {s : State σ κ τ} {pk : ℕ} {keys : List κ} {phase : τ}

theorem mem_openTxn {t : Txn κ τ} : t ∈ (openTxn s phase).txns ↔
    t ∈ s.txns ∨ t = ⟨s.txns.next, [], phase⟩ :=
  Table.mem_insert ..

theorem mem_advance {t : Txn κ τ} : t ∈ (advance s pk keys phase).txns ↔
    (t ∈ s.txns ∧ t.pk ≠ pk) ∨ ∃ u ∈ s.txns, u.pk = pk ∧ moveTo keys phase u = t :=
  Table.mem_update _ _ _ (moveTo_pk keys phase) _

theorem mem_endTxn {store : σ} {t : Txn κ τ} : t ∈ (endTxn s pk store).txns ↔
    t ∈ s.txns ∧ t.pk ≠ pk := by
  unfold endTxn
  simp

theorem allTxns_openTxn (h : AllTxns P s) (hnew : ∀ k, P s.store ⟨k, [], phase⟩) :
    AllTxns P (openTxn s phase) := by
  intro t ht
  rcases mem_openTxn.mp ht with hold | rfl
  · exact h t hold
  · exact hnew _

theorem allTxns_advance (h : AllTxns P s)
    (hnew : ∀ t ∈ s.txns, t.pk = pk → P s.store (moveTo keys phase t)) :
    AllTxns P (advance s pk keys phase) := by
  intro t ht
  rcases mem_advance.mp ht with ⟨hold, _⟩ | ⟨u, hu, hpk, rfl⟩
  · exact h t hold
  · exact hnew u hu hpk

/-- The writes of a transaction must respect what the others have read. -/
theorem allTxns_endTxn {store : σ} (h : AllTxns P s)
    (hframe : ∀ t ∈ s.txns, t.pk ≠ pk → P s.store t → P store t) :
    AllTxns P (endTxn s pk store) := by
  intro t ht
  obtain ⟨hmem, hne⟩ := mem_endTxn.mp ht
  exact hframe t hmem hne (h t hmem)

theorem exclusive_openTxn (h : Exclusive s) : Exclusive (openTxn s phase) := by
  intro t ht t' ht' k hk hk'
  rcases mem_openTxn.mp ht with hold | rfl
  · rcases mem_openTxn.mp ht' with hold' | rfl
    · exact h t hold t' hold' k hk hk'
    · simp at hk'
  · simp at hk

variable [DecidableEq κ]

theorem lockedByOther_eq_false {k : κ} : lockedByOther s pk k = false ↔
    ∀ t ∈ s.txns, t.pk ≠ pk → k ∉ t.held := by
  unfold lockedByOther
  rw [List.any_eq_false]
  simp [Table.mem_iff]

theorem exclusive_advance (h : Exclusive s)
    (hfree : ∀ k ∈ keys, lockedByOther s pk k = false) :
    Exclusive (advance s pk keys phase) := by
  have hmoved : ∀ t ∈ s.txns, t.pk ≠ pk → ∀ u ∈ s.txns, u.pk = pk → ∀ k ∈ t.held,
      k ∉ (moveTo keys phase u).held := by
    intro t ht hne u hu hpk k hk hmem
    rcases List.mem_append.mp hmem with hheld | hnew
    · exact hne (by rw [h t ht u hu k hk hheld, hpk])
    · exact lockedByOther_eq_false.mp (hfree k hnew) t ht hne hk
  intro t ht t' ht' k hk hk'
  rcases mem_advance.mp ht with ⟨hold, hne⟩ | ⟨u, hu, hpk, rfl⟩
  · rcases mem_advance.mp ht' with ⟨hold', _⟩ | ⟨u', hu', hpk', rfl⟩
    · exact h t hold t' hold' k hk hk'
    · exact absurd hk' (hmoved t hold hne u' hu' hpk' k hk)
  · rcases mem_advance.mp ht' with ⟨hold', hne'⟩ | ⟨u', hu', hpk', rfl⟩
    · exact absurd hk (hmoved t' hold' hne' u hu hpk k hk')
    · rw [s.txns.eq_of_key_eq hu hu' (hpk.trans hpk'.symm)]

omit [DecidableEq κ] in
theorem exclusive_endTxn {store : σ} (h : Exclusive s) : Exclusive (endTxn s pk store) := by
  intro t ht t' ht'
  exact h t (mem_endTxn.mp ht).1 t' (mem_endTxn.mp ht').1

end Rules

end ConfigBackup.RowLocks
