import ConfigBackup.CodePoints
import Mathlib

/-!
JSON values. A value is read off along paths of keys and positions, an object has each key once,
and two values with the same nodes on all paths differ in the order of keys only.
-/

namespace ConfigBackup.JsonValues

open CodePoints

variable {F : Type}

section Values

/-- A float of the source language, over its finite floats. -/
inductive PyFloat (F : Type)
  | finite (x : F) | nan | infinity | negInfinity
deriving DecidableEq, Repr

inductive Scalar (F : Type)
  | null | bool (b : Bool) | int (n : ℤ) | float (x : PyFloat F) | str (s : PyText)
deriving DecidableEq, Repr

inductive Json (F : Type)
  | scalar (s : Scalar F)
  | arr (items : List (Json F))
  | obj (items : List (PyText × Json F))

theorem Json.induction {motive : Json F → Prop} (scalar : ∀ s, motive (.scalar s))
    (arr : ∀ items, (∀ v ∈ items, motive v) → motive (.arr items))
    (obj : ∀ items, (∀ key v, (key, v) ∈ items → motive v) → motive (.obj items)) :
    ∀ v, motive v := by
  refine @Json.rec F motive (fun items => ∀ v ∈ items, motive v)
    (fun items => ∀ key v, (key, v) ∈ items → motive v) (fun item => motive item.2)
    scalar arr obj ?_ ?_ ?_ ?_ ?_
  · intro v hv
    cases hv
  · intro v rest hv hrest w hw
    rcases List.mem_cons.mp hw with rfl | hw
    · exact hv
    · exact hrest w hw
  · intro key v hv
    cases hv
  · intro item rest hitem hrest key w hw
    rcases List.mem_cons.mp hw with rfl | hw
    · exact hitem
    · exact hrest key w hw
  · intro key v hv
    exact hv

/-- Every object of a value has each key once. -/
inductive Json.Valid : Json F → Prop
  | scalar (s : Scalar F) : Valid (.scalar s)
  | arr {items : List (Json F)} (h : ∀ v ∈ items, Valid v) : Valid (.arr items)
  | obj {items : List (PyText × Json F)} (hkeys : (items.map Prod.fst).Nodup)
    (h : ∀ item ∈ items, Valid item.2) : Valid (.obj items)

end Values

section Keys

variable {α β : Type}

/-- `sorted(items)` for items of different keys. -/
def sortByKey (items : List (PyText × α)) : List (PyText × α) :=
  items.insertionSort fun a b => a.1 ≤ b.1

theorem perm_sortByKey (items : List (PyText × α)) : (sortByKey items).Perm items :=
  List.perm_insertionSort _ items

theorem pairwise_sortByKey (items : List (PyText × α)) :
    (sortByKey items).Pairwise fun a b => a.1 ≤ b.1 := by
  have htotal : Std.Total fun a b : PyText × α => a.1 ≤ b.1 := ⟨fun a b => le_total a.1 b.1⟩
  have htrans : IsTrans (PyText × α) fun a b => a.1 ≤ b.1 := ⟨fun _ _ _ => le_trans⟩
  exact List.pairwise_insertionSort _ items

theorem sortByKey_sortByKey (items : List (PyText × α)) :
    sortByKey (sortByKey items) = sortByKey items :=
  (pairwise_sortByKey items).insertionSort_eq

theorem sortByKey_map (f : PyText × α → PyText × β) (hf : ∀ item, (f item).1 = item.1)
    (items : List (PyText × α)) : sortByKey (items.map f) = (sortByKey items).map f := by
  refine (List.map_insertionSort _ _ f items fun a _ b _ => ?_).symm
  rw [hf, hf]

/-- Items of one key are one item. -/
theorem eq_of_mem {items : List (PyText × α)} (hkeys : (items.map Prod.fst).Nodup)
    {a b : PyText × α} (ha : a ∈ items) (hb : b ∈ items) (h : a.1 = b.1) : a = b :=
  List.inj_on_of_nodup_map hkeys ha hb h

theorem sortByKey_eq_of_perm {first second : List (PyText × α)}
    (hkeys : (second.map Prod.fst).Nodup) (h : first.Perm second) :
    sortByKey first = sortByKey second := by
  have hperm : (sortByKey first).Perm (sortByKey second) :=
    ((perm_sortByKey first).trans h).trans (perm_sortByKey second).symm
  refine hperm.eq_of_pairwise ?_ (pairwise_sortByKey first) (pairwise_sortByKey second)
  intro a b ha hb hab hba
  exact eq_of_mem hkeys (h.subset ((perm_sortByKey first).subset ha))
    ((perm_sortByKey second).subset hb) (le_antisymm hab hba)

theorem lookup_eq_some_iff {items : List (PyText × α)} (hkeys : (items.map Prod.fst).Nodup)
    {key : PyText} {v : α} : items.lookup key = some v ↔ (key, v) ∈ items := by
  induction items with
  | nil => simp
  | cons item rest ih =>
    obtain ⟨other, w⟩ := item
    rw [List.map_cons, List.nodup_cons] at hkeys
    rw [List.lookup_cons, List.mem_cons]
    by_cases hkey : key = other
    · subst hkey
      have hnot : (key, v) ∉ rest := fun hmem => hkeys.1 (List.mem_map.mpr ⟨_, hmem, rfl⟩)
      simp [hnot, eq_comm]
    · have hne : (key == other) = false := beq_eq_false_iff_ne.mpr hkey
      rw [hne, ih hkeys.2]
      simp [hkey]

end Keys

section Paths

/-- The step from an object to a value of it, or from an array. -/
inductive Step
  | key (k : PyText) | index (i : ℕ)
deriving DecidableEq, Repr

/-- What a value is without the values that it holds. -/
inductive Node (F : Type)
  | scalar (s : Scalar F) | array (length : ℕ) | object (keys : Finset PyText)
deriving DecidableEq

def Json.child : Json F → Step → Option (Json F)
  | .obj items, .key k => items.lookup k
  | .arr items, .index i => items[i]?
  | _, _ => none

def Json.node : Json F → Node F
  | .scalar s => .scalar s
  | .arr items => .array items.length
  | .obj items => .object (items.map Prod.fst).toFinset

/-- The node at the end of a path, if the value has it. -/
def Json.node? (v : Json F) : List Step → Option (Node F)
  | [] => some v.node
  | step :: path => (v.child step).bind fun w => w.node? path

/-- The values have the same nodes on all paths of admitted steps. -/
def Agree (admitted : Step → Prop) (v w : Json F) : Prop :=
  ∀ path : List Step, (∀ step ∈ path, admitted step) → v.node? path = w.node? path

variable {admitted : Step → Prop} {u v w : Json F}

theorem Agree.refl (admitted : Step → Prop) (v : Json F) : Agree admitted v v := fun _ _ => rfl

theorem Agree.symm (h : Agree admitted v w) : Agree admitted w v :=
  fun path hpath => (h path hpath).symm

theorem Agree.trans (huv : Agree admitted u v) (hvw : Agree admitted v w) : Agree admitted u w :=
  fun path hpath => (huv path hpath).trans (hvw path hpath)

theorem Agree.node (h : Agree admitted v w) : v.node = w.node := Option.some.inj (h [] nofun)

theorem Agree.child (h : Agree admitted v w) (step : Step) (hstep : admitted step) {v' : Json F}
    (hv : v.child step = some v') : ∃ w', w.child step = some w' ∧ Agree admitted v' w' := by
  have hbind : ∀ path, (∀ other ∈ path, admitted other) →
      v'.node? path = (w.child step).bind fun x => x.node? path := by
    intro path hpath
    have hnode := h (step :: path) (List.forall_mem_cons.mpr ⟨hstep, hpath⟩)
    rwa [Json.node?, Json.node?, hv] at hnode
  cases hw : w.child step with
  | none =>
    have hnode := hbind [] nofun
    rw [hw] at hnode
    cases hnode
  | some w' =>
    refine ⟨w', rfl, fun path hpath => ?_⟩
    rw [hbind path hpath, hw]
    rfl

end Paths

section Sorting

mutual

/-- The value with the keys of every object in order. -/
def Json.sorted : Json F → Json F
  | .scalar s => .scalar s
  | .arr items => .arr (sortedList items)
  | .obj items => .obj (sortByKey (sortedItems items))

def sortedList : List (Json F) → List (Json F)
  | [] => []
  | v :: rest => v.sorted :: sortedList rest

def sortedItems : List (PyText × Json F) → List (PyText × Json F)
  | [] => []
  | (key, v) :: rest => (key, v.sorted) :: sortedItems rest

end

variable {v w : Json F}

theorem sortedList_eq (items : List (Json F)) : sortedList items = items.map Json.sorted := by
  induction items with
  | nil => rfl
  | cons v rest ih => rw [sortedList, ih, List.map_cons]

theorem sortedItems_eq (items : List (PyText × Json F)) :
    sortedItems items = items.map fun item => (item.1, item.2.sorted) := by
  induction items with
  | nil => rfl
  | cons item rest ih => rw [sortedItems, ih, List.map_cons]

theorem keys_sortedItems (items : List (PyText × Json F)) :
    (sortedItems items).map Prod.fst = items.map Prod.fst := by
  rw [sortedItems_eq, List.map_map]
  rfl

theorem mem_sortedItems {items : List (PyText × Json F)} {key : PyText} {v : Json F} :
    (key, v) ∈ sortedItems items ↔ ∃ u, (key, u) ∈ items ∧ u.sorted = v := by
  rw [sortedItems_eq, List.mem_map]
  constructor
  · rintro ⟨⟨other, u⟩, hmem, heq⟩
    obtain ⟨rfl, rfl⟩ := Prod.mk.inj heq
    exact ⟨u, hmem, rfl⟩
  · rintro ⟨u, hmem, rfl⟩
    exact ⟨(key, u), hmem, rfl⟩

theorem node_sorted (v : Json F) : v.sorted.node = v.node := by
  cases v with
  | scalar s => rfl
  | arr items => rw [Json.sorted, Json.node, sortedList_eq, List.length_map, Json.node]
  | obj items =>
    rw [Json.sorted, Json.node, Json.node, ← keys_sortedItems items]
    exact congrArg Node.object (List.toFinset_eq_of_perm _ _ ((perm_sortByKey _).map Prod.fst))

theorem child_sorted (hv : v.Valid) (step : Step) :
    v.sorted.child step = (v.child step).map Json.sorted := by
  cases hv with
  | scalar s => cases step <;> rfl
  | arr h =>
    rename_i items
    cases step with
    | key k => rfl
    | index i => rw [Json.sorted, Json.child, sortedList_eq, List.getElem?_map, Json.child]
  | obj hkeys h =>
    rename_i items
    cases step with
    | index i => rfl
    | key k =>
      rw [Json.sorted, Json.child, Json.child]
      have hsorted : ((sortedItems items).map Prod.fst).Nodup := by
        rwa [keys_sortedItems]
      have hnodup : ((sortByKey (sortedItems items)).map Prod.fst).Nodup :=
        ((perm_sortByKey _).map Prod.fst).nodup_iff.mpr hsorted
      refine Option.ext fun u => ?_
      rw [lookup_eq_some_iff hnodup, (perm_sortByKey _).mem_iff, mem_sortedItems,
        Option.map_eq_some_iff]
      exact exists_congr fun x => and_congr_left' (lookup_eq_some_iff hkeys).symm

theorem Json.Valid.child (hv : v.Valid) {step : Step} {u : Json F} (hu : v.child step = some u) :
    u.Valid := by
  cases hv with
  | scalar s => cases step <;> cases hu
  | arr h =>
    cases step with
    | key k => cases hu
    | index i => exact h u (List.mem_of_getElem? hu)
  | obj hkeys h =>
    cases step with
    | index i => cases hu
    | key k => exact h (k, u) ((lookup_eq_some_iff hkeys).mp hu)

/-- Sorting the keys changes no node. -/
theorem node?_sorted (hv : v.Valid) (path : List Step) : v.sorted.node? path = v.node? path := by
  induction path generalizing v with
  | nil => exact congrArg some (node_sorted v)
  | cons step path ih =>
    rw [Json.node?, Json.node?, child_sorted hv]
    cases hchild : v.child step with
    | none => rfl
    | some u => exact ih (hv.child hchild)

theorem agree_sorted (hv : v.Valid) (admitted : Step → Prop) : Agree admitted v.sorted v :=
  fun path _ => node?_sorted hv path

/-- Values with the same nodes are the same up to the order of their keys. -/
theorem sorted_eq_of_agree (hv : v.Valid) (hw : w.Valid) (h : Agree (fun _ => True) v w) :
    v.sorted = w.sorted := by
  induction v using Json.induction generalizing w with
  | scalar s =>
    have hnode := h.node
    cases w with
    | scalar t =>
      obtain rfl := Node.scalar.inj hnode
      rfl
    | arr items => cases hnode
    | obj items => cases hnode
  | arr items ih =>
    have hnode := h.node
    cases w with
    | scalar t => cases hnode
    | obj others => cases hnode
    | arr others =>
      have hlength : items.length = others.length := Node.array.inj hnode
      rw [Json.sorted, Json.sorted, sortedList_eq, sortedList_eq]
      refine congrArg Json.arr (List.ext_getElem (by simpa using hlength) fun i hi hi' => ?_)
      rw [List.length_map] at hi hi'
      have hchild : (Json.arr items).child (.index i) = some items[i] := List.getElem?_eq_getElem hi
      obtain ⟨u, hu, hagree⟩ := h.child (.index i) trivial hchild
      obtain rfl : others[i] = u := Option.some.inj ((List.getElem?_eq_getElem hi').symm.trans hu)
      rw [List.getElem_map, List.getElem_map]
      exact ih _ (List.getElem_mem hi) (hv.child hchild) (hw.child hu) hagree
  | obj items ih =>
    have hnode := h.node
    cases w with
    | scalar t => cases hnode
    | arr others => cases hnode
    | obj others =>
      cases hv with | obj hkeys hitems =>
      cases hw with | obj hkeys' hothers =>
      have hchild : ∀ {key : PyText} {u : Json F}, (key, u) ∈ items →
          ∃ u', (key, u') ∈ others ∧ u.sorted = u'.sorted := by
        intro key u hu
        obtain ⟨u', hu', hagree⟩ := h.child (.key key) trivial
          ((lookup_eq_some_iff hkeys).mpr hu)
        have hmem := (lookup_eq_some_iff hkeys').mp hu'
        exact ⟨u', hmem, ih key u hu (hitems _ hu) (hothers _ hmem) hagree⟩
      have hnodup : ((sortedItems items).map Prod.fst).Nodup := by
        rwa [keys_sortedItems]
      have hnodup' : ((sortedItems others).map Prod.fst).Nodup := by
        rwa [keys_sortedItems]
      rw [Json.sorted, Json.sorted]
      refine congrArg Json.obj (sortByKey_eq_of_perm hnodup' ?_)
      refine (List.perm_ext_iff_of_nodup hnodup.of_map hnodup'.of_map).mpr fun ⟨key, x⟩ => ?_
      rw [mem_sortedItems, mem_sortedItems]
      constructor
      · rintro ⟨u, hu, rfl⟩
        obtain ⟨u', hu', heq⟩ := hchild hu
        exact ⟨u', hu', heq.symm⟩
      · rintro ⟨u', hu', rfl⟩
        have hkey : key ∈ (items.map Prod.fst).toFinset := by
          rw [show (items.map Prod.fst).toFinset = (others.map Prod.fst).toFinset from
            Node.object.inj hnode, List.mem_toFinset]
          exact List.mem_map.mpr ⟨_, hu', rfl⟩
        obtain ⟨⟨other, u⟩, hu, rfl⟩ := List.mem_map.mp (List.mem_toFinset.mp hkey)
        obtain ⟨u'', hu'', heq⟩ := hchild hu
        have hsame := (Prod.mk.inj (eq_of_mem hkeys' hu'' hu' rfl)).2
        exact ⟨u, hu, by rw [heq, hsame]⟩

theorem agree_of_sorted_eq (hv : v.Valid) (hw : w.Valid) (h : v.sorted = w.sorted)
    (admitted : Step → Prop) : Agree admitted v w := by
  have hsorted := agree_sorted hv admitted
  rw [h] at hsorted
  exact hsorted.symm.trans (agree_sorted hw admitted)

end Sorting

end ConfigBackup.JsonValues
