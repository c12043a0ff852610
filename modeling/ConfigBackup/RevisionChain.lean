import ConfigBackup.Models

/-!
The chain of a target's revisions. Relinking sorts the kept revisions by
creation and points each of them at the one before it; afterwards a kept
revision has a previous one exactly when an older revision was kept.
-/

namespace ConfigBackup.RevisionChain

open Models NewestFirst Tables

/-- A revision is older when the other one is newer. -/
abbrev older (a b : ConfigRevision) : Prop := b.newer a

theorem recency_newer : Recency ConfigRevision.newer := recency_newerBy _ _

theorem recency_older : Recency older where
  asymm a b hab hba := recency_newer.asymm b a hab hba
  split a b c hac := (recency_newer.split c b a hac).symm

/-- `sorted(..., key=lambda revision: (revision.created, revision.pk))`. -/
def oldestFirst (revisions : List ConfigRevision) : List ConfigRevision :=
  newestFirst older revisions

/-- The revision with another previous link. -/
def withPrevious (previous : Option ℕ) (r : ConfigRevision) : ConfigRevision :=
  { r with previousRevision := previous }

@[simp] theorem withPrevious_pk (previous : Option ℕ) (r : ConfigRevision) :
    (withPrevious previous r).pk = r.pk := rfl

def savePrevious (db : Database) (pk : ℕ) (previous : Option ℕ) : Database :=
  { db with revisions := db.revisions.update pk (withPrevious previous) (withPrevious_pk previous) }

/-- Point each revision of the list at the one before it. -/
def linkEach : Option ℕ → List ConfigRevision → Database → Database
  | _, [], db => db
  | previous, revision :: rest, db =>
    linkEach (some revision.pk) rest (savePrevious db revision.pk previous)

def saveLastRevision (db : Database) (targetId : ℕ) (lastRevision : Option ℕ) : Database :=
  { db with
    targets := db.targets.update targetId (fun t => { t with lastRevision := lastRevision })
      (fun _ => rfl) }

def relinkKeptRevisions (db : Database) (targetId : ℕ) (revisions : List ConfigRevision)
    (deleted : ℕ → Bool) : Database :=
  let kept := oldestFirst (revisions.filter (fun r => !deleted r.pk))
  saveLastRevision (linkEach none kept db) targetId ((kept.getLast?).map (fun r => r.pk))

theorem get?_savePrevious (db : Database) (pk k : ℕ) (previous : Option ℕ) :
    (savePrevious db pk previous).revisions.get? k =
      if k = pk then (db.revisions.get? k).map (withPrevious previous)
      else db.revisions.get? k := by
  unfold savePrevious
  exact Table.get?_update _ _ _ _ (withPrevious_pk previous)

theorem linkEach_other {kept : List ConfigRevision} {k : ℕ} (hk : ∀ r ∈ kept, r.pk ≠ k)
    (previous : Option ℕ) (db : Database) :
    (linkEach previous kept db).revisions.get? k = db.revisions.get? k := by
  induction kept generalizing previous db with
  | nil => rfl
  | cons r rest ih =>
    unfold linkEach
    rw [ih (fun s hs => hk s (List.mem_cons_of_mem r hs)), get?_savePrevious,
      if_neg (Ne.symm (hk r List.mem_cons_self))]

/-- The link that the loop writes into a kept revision. -/
theorem linkEach_get? {kept : List ConfigRevision} (hsorted : kept.Pairwise older)
    (hkeys : kept.Pairwise (fun a b => a.pk ≠ b.pk)) (previous : Option ℕ) (db : Database)
    {r : ConfigRevision} (hr : r ∈ kept) :
    ∃ link, (linkEach previous kept db).revisions.get? r.pk =
        (db.revisions.get? r.pk).map (withPrevious link) ∧
      ((link = previous ∧ ∀ s ∈ kept, ¬ older s r) ∨ ∃ p ∈ kept, link = some p.pk ∧ older p r) := by
  induction kept generalizing previous db with
  | nil => cases hr
  | cons a rest ih =>
    obtain ⟨hhead, htail⟩ := List.pairwise_cons.mp hsorted
    obtain ⟨hfresh, hkeys⟩ := List.pairwise_cons.mp hkeys
    unfold linkEach
    rcases List.mem_cons.mp hr with rfl | hr
    · refine ⟨previous, ?_, Or.inl ⟨rfl, ?_⟩⟩
      · rw [linkEach_other (fun s hs => Ne.symm (hfresh s hs)), get?_savePrevious, if_pos rfl]
      · intro s hs hsr
        rcases List.mem_cons.mp hs with rfl | hs
        · exact recency_older.asymm s s hsr hsr
        · exact recency_older.asymm r s (hhead s hs) hsr
    · obtain ⟨link, hlink, hcases⟩ := ih htail hkeys (some a.pk) (savePrevious db a.pk previous) hr
      refine ⟨link, ?_, Or.inr ?_⟩
      · rw [hlink, get?_savePrevious, if_neg (Ne.symm (hfresh r hr))]
      · rcases hcases with ⟨hlink, _⟩ | ⟨p, hp, hlink, hpr⟩
        · exact ⟨a, List.mem_cons_self, hlink, hhead r hr⟩
        · exact ⟨p, List.mem_cons_of_mem a hp, hlink, hpr⟩

theorem linkEach_frame (kept : List ConfigRevision) (previous : Option ℕ) (db : Database) :
    ∃ revisions, linkEach previous kept db = { db with revisions := revisions } := by
  induction kept generalizing previous db with
  | nil => exact ⟨db.revisions, rfl⟩
  | cons r rest ih =>
    obtain ⟨revisions, h⟩ := ih (some r.pk) (savePrevious db r.pk previous)
    exact ⟨revisions, h⟩

section Relink

variable {db : Database} {targetId : ℕ} {revisions : List ConfigRevision} {deleted : ℕ → Bool}

theorem mem_kept {r : ConfigRevision} :
    r ∈ oldestFirst (revisions.filter (fun r => !deleted r.pk)) ↔
      r ∈ revisions ∧ deleted r.pk = false := by
  unfold oldestFirst
  simp

theorem kept_sorted (hkeys : revisions.Pairwise (fun a b => a.pk ≠ b.pk)) :
    (oldestFirst (revisions.filter (fun r => !deleted r.pk))).Pairwise older := by
  apply pairwise_newestFirst recency_older
  refine (hkeys.filter _).imp ?_
  intro a b hab
  exact (newerBy_or_newerBy hab).symm

theorem kept_keys (hkeys : revisions.Pairwise (fun a b => a.pk ≠ b.pk)) :
    (oldestFirst (revisions.filter (fun r => !deleted r.pk))).Pairwise
      (fun a b => a.pk ≠ b.pk) :=
  ((newestFirst_perm _).pairwise_iff (fun h => Ne.symm h)).mpr (hkeys.filter _)

/-- Relinking writes previous links, and the last revision of the one target. -/
theorem relink_frame :
    ∃ rows last, relinkKeptRevisions db targetId revisions deleted =
      saveLastRevision { db with revisions := rows } targetId last := by
  obtain ⟨rows, h⟩ := linkEach_frame (oldestFirst (revisions.filter (fun r => !deleted r.pk)))
    none db
  refine ⟨rows, ((oldestFirst (revisions.filter (fun r => !deleted r.pk))).getLast?).map
    (fun r => r.pk), ?_⟩
  rw [← h]
  rfl

/-- A revision that is not kept keeps its row. -/
theorem relink_other {k : ℕ} (hk : ∀ r ∈ revisions, r.pk = k → deleted k = true) :
    (relinkKeptRevisions db targetId revisions deleted).revisions.get? k =
      db.revisions.get? k := by
  unfold relinkKeptRevisions saveLastRevision
  apply linkEach_other
  intro r hr hrk
  obtain ⟨hmem, hdeleted⟩ := mem_kept.mp hr
  rw [hrk, hk r hmem hrk] at hdeleted
  cases hdeleted

/-- A kept revision points to an older kept one, or it is the oldest kept one. -/
theorem relink_kept (hkeys : revisions.Pairwise (fun a b => a.pk ≠ b.pk)) {r : ConfigRevision}
    (hr : r ∈ revisions) (hkept : deleted r.pk = false) :
    ∃ link, (relinkKeptRevisions db targetId revisions deleted).revisions.get? r.pk =
        (db.revisions.get? r.pk).map (withPrevious link) ∧
      ((link = none ∧ ∀ s ∈ revisions, deleted s.pk = false → ¬ older s r) ∨
        ∃ p ∈ revisions, deleted p.pk = false ∧ link = some p.pk ∧ older p r) := by
  obtain ⟨link, hlink, hcases⟩ :=
    linkEach_get? (kept_sorted hkeys) (kept_keys hkeys) none db (mem_kept.mpr ⟨hr, hkept⟩)
  refine ⟨link, hlink, ?_⟩
  rcases hcases with ⟨hnone, hall⟩ | ⟨p, hp, hlink, hpr⟩
  · exact Or.inl ⟨hnone, fun s hs hdel => hall s (mem_kept.mpr ⟨hs, hdel⟩)⟩
  · obtain ⟨hmem, hdel⟩ := mem_kept.mp hp
    exact Or.inr ⟨p, hmem, hdel, hlink, hpr⟩

/-- The target's last revision is the newest kept one. -/
theorem relink_last (hkeys : revisions.Pairwise (fun a b => a.pk ≠ b.pk)) :
    ∃ last, (relinkKeptRevisions db targetId revisions deleted).targets.get? targetId =
        (db.targets.get? targetId).map (fun t => { t with lastRevision := last }) ∧
      ((last = none ∧ ∀ s ∈ revisions, deleted s.pk = true) ∨
        ∃ r ∈ revisions, deleted r.pk = false ∧ last = some r.pk ∧
          ∀ s ∈ revisions, deleted s.pk = false → ¬ s.newer r) := by
  have htargets : ∀ last, (saveLastRevision (linkEach none (oldestFirst
      (revisions.filter (fun r => !deleted r.pk))) db) targetId last).targets.get? targetId =
      (db.targets.get? targetId).map (fun t => { t with lastRevision := last }) := by
    intro last
    obtain ⟨t, ht⟩ := linkEach_frame (oldestFirst (revisions.filter (fun r => !deleted r.pk)))
      none db
    rw [ht]
    unfold saveLastRevision
    rw [Table.get?_update, if_pos rfl]
  refine ⟨_, htargets _, ?_⟩
  cases hlast : (oldestFirst (revisions.filter (fun r => !deleted r.pk))).getLast? with
  | none =>
    refine Or.inl ⟨rfl, ?_⟩
    intro s hs
    rw [List.getLast?_eq_none_iff] at hlast
    by_contra hdel
    have hmem : s ∈ oldestFirst (revisions.filter (fun r => !deleted r.pk)) :=
      mem_kept.mpr ⟨hs, by simpa using hdel⟩
    rw [hlast] at hmem
    cases hmem
  | some r =>
    obtain ⟨front, hfront⟩ := List.getLast?_eq_some_iff.mp hlast
    have hr : r ∈ oldestFirst (revisions.filter (fun r => !deleted r.pk)) := by simp [hfront]
    refine Or.inr ⟨r, (mem_kept.mp hr).1, (mem_kept.mp hr).2, rfl, ?_⟩
    intro s hs hdel hnewer
    have hmem : s ∈ oldestFirst (revisions.filter (fun r => !deleted r.pk)) :=
      mem_kept.mpr ⟨hs, hdel⟩
    have hsorted : (oldestFirst (revisions.filter (fun r => !deleted r.pk))).Pairwise older :=
      kept_sorted hkeys
    rw [hfront] at hmem hsorted
    rcases List.mem_append.mp hmem with hmem | hmem
    · have hsr := (List.pairwise_append.mp hsorted).2.2 s hmem r (List.mem_singleton.mpr rfl)
      exact recency_newer.asymm s r hnewer hsr
    · rw [List.mem_singleton.mp hmem] at hnewer
      exact recency_newer.asymm r r hnewer hnewer

end Relink

end ConfigBackup.RevisionChain
