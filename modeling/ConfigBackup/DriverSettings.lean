import ConfigBackup.GuardedRuns
import ConfigBackup.RowLocks

/-!
Disabled drivers and driver assignments. A save of the settings checks the drivers
in use, and a save of a target or a platform mapping checks the disabled drivers;
both run under a lock on the row of the settings. While this row does not exist
there is nothing to lock, and the two kinds of saves do not wait for each other.
-/

namespace ConfigBackup.DriverSettings

open GuardedRuns RowLocks Tables

def siaeCompatibilityIds : List String :=
  ["siae_smos_cli", "siae_smos_ssh", "siae_alfoplus", "siae_alfoplus2", "siae_alfoplus80hd",
    "siae_ags20"]

def selectionId (driverId : String) : String :=
  if driverId ∈ siaeCompatibilityIds then "siae_smos_auto" else driverId

/-- The two models with a driver: `driver_override` and `driver_id`. -/
inductive Kind
  | backupTarget | platformMapping
deriving DecidableEq, Repr

structure Assignment where
  pk : ℕ
  driver : String
deriving DecidableEq, Repr

/-- `disabledDriverIds` is the column of the settings row, of which there is at most
one by its unique constraint. -/
structure Store where
  disabledDriverIds : Option (List String)
  targets : Table Assignment Assignment.pk
  mappings : Table Assignment Assignment.pk

def Store.assignments (store : Store) : Kind → Table Assignment Assignment.pk
  | .backupTarget => store.targets
  | .platformMapping => store.mappings

def Store.withAssignments (store : Store) (kind : Kind) (rows : Table Assignment Assignment.pk) :
    Store :=
  match kind with
  | .backupTarget => { store with targets := rows }
  | .platformMapping => { store with mappings := rows }

def driverIsEnabled (driverId : String) (disabled : List String) : Bool :=
  !(disabled.map selectionId).contains (selectionId driverId)

/-- `validate_driver_assignment` does not raise; a blank driver is no assignment. -/
def validateDriverAssignment (driverId : String) (disabled : List String) : Bool :=
  driverId == "" || driverIsEnabled driverId disabled

/-- The part of `driver_usage_counts` for one model: the selections it uses. -/
def usedSelections (store : Store) (kind : Kind) : List String :=
  ((store.assignments kind).rows.filter (fun a => a.driver != "")).map
    (fun a => selectionId a.driver)

/-- `validate_disabled_drivers` does not raise, given the counted selections. -/
def validateDisabledDrivers (values usage : List String) : Bool :=
  !values.any (fun value => usage.contains (selectionId value))

section Saves

/-- A save of the settings; `isNew` when the instance was not loaded, and
`writesField` unless `update_fields` leaves the column out. -/
structure SettingsSave where
  values : List String
  isNew : Bool
  writesField : Bool
deriving DecidableEq, Repr

/-- A save of a target or a mapping: of a new instance, or of the row `pk`. -/
structure AssignmentSave where
  kind : Kind
  pk : Option ℕ
  driver : String
  writesField : Bool
deriving DecidableEq, Repr

inductive Save
  | settings (save : SettingsSave)
  | assignment (save : AssignmentSave)
deriving DecidableEq, Repr

/-- `OperationalSettings.save`. -/
def operationalSettingsSave (disabledDriverIds : List String) (isNew writesField : Bool) : Save :=
  .settings ⟨disabledDriverIds, isNew, writesField⟩

/-- `BackupTarget.save`. -/
def backupTargetSave (pk : Option ℕ) (driverOverride : String) (writesField : Bool) : Save :=
  .assignment ⟨.backupTarget, pk, driverOverride, writesField⟩

/-- `PlatformMapping.save`. -/
def platformMappingSave (pk : Option ℕ) (driverId : String) (writesField : Bool) : Save :=
  .assignment ⟨.platformMapping, pk, driverId, writesField⟩

/-- How far a save has come. A save of the settings still has to count the models
`left`; a save of an assignment has passed its check against `selection`, the
column of the locked row. -/
inductive Phase
  | opened (save : Save)
  | settings (save : SettingsSave) (found : Bool) (left : List Kind) (usage : List String)
  | assignment (save : AssignmentSave) (selection : Option (List String))
deriving DecidableEq, Repr

abbrev State := RowLocks.State Store Unit Phase

/-- The saved assignment, as an insert or an update; a new instance cannot be saved
with `update_fields`. -/
def saveAssignment (save : AssignmentSave) (store : Store) : Option Store :=
  match save.pk with
  | none =>
    if save.writesField then
      some (store.withAssignments save.kind ((store.assignments save.kind).insert
        (fun pk => ⟨pk, save.driver⟩) (fun _ => rfl)))
    else none
  | some pk =>
    if save.writesField then
      some (store.withAssignments save.kind ((store.assignments save.kind).update pk
        (fun a => { a with driver := save.driver }) (fun _ => rfl)))
    else some store

/-- The saved settings. Without a locked row it is an insert, which the unique
constraint refuses when there is a row by now, as it does for a new instance. -/
def saveSettings (save : SettingsSave) (found : Bool) (store : Store) : Option Store :=
  if found then
    if save.isNew then none
    else if save.writesField then some { store with disabledDriverIds := some save.values }
    else some store
  else if store.disabledDriverIds.isSome || !save.writesField then none
  else some { store with disabledDriverIds := some save.values }

end Saves

section Steps

inductive Label
  | begin (save : Save)
  | lock (txn : ℕ)
  | count (txn : ℕ)
  | commit (txn : ℕ)
  | abort (txn : ℕ)
deriving DecidableEq, Repr

/-- `locked_driver_settings` gives the row to the save. A save of an assignment then
checks its driver, and one that fails ends with an exception. -/
def lockedDriverSettings (s : State) (txn : ℕ) (keys : List Unit) : Save → State
  | .settings save => advance s txn keys
    (.settings save s.store.disabledDriverIds.isSome [.backupTarget, .platformMapping] [])
  | .assignment save =>
    if validateDriverAssignment save.driver (s.store.disabledDriverIds.getD []) then
      advance s txn keys (.assignment save s.store.disabledDriverIds)
    else endTxn s txn s.store

def lock (s : State) (txn : ℕ) : Phase → Option State
  | .opened save =>
    if s.store.disabledDriverIds.isSome then
      if lockedByOther s txn () then none else some (lockedDriverSettings s txn [()] save)
    else some (lockedDriverSettings s txn [] save)
  | _ => none

def count (s : State) (txn : ℕ) : Phase → Option State
  | .settings save found (kind :: left) usage =>
    some (advance s txn [] (.settings save found left (usage ++ usedSelections s.store kind)))
  | _ => none

/-- The write of a save whose check has passed; no check is made for an empty list. -/
def writes (store : Store) : Phase → Option Store
  | .settings save found left usage =>
    if save.values = [] ∨ (left = [] ∧ validateDisabledDrivers save.values usage) then
      saveSettings save found store
    else none
  | .assignment save _ => saveAssignment save store
  | .opened _ => none

def step (s : State) : Label → Option State
  | .begin save => some (openTxn s (.opened save))
  | .lock txn => (s.txns.get? txn).bind fun t => lock s txn t.phase
  | .count txn => (s.txns.get? txn).bind fun t => count s txn t.phase
  | .commit txn => (s.txns.get? txn).bind fun t =>
    (writes s.store t.phase).map (endTxn s txn)
  | .abort txn => (s.txns.get? txn).map fun _ => endTxn s txn s.store

end Steps

section Checks

variable {store store' : Store}

/-- No driver assignment is disabled by the settings. -/
def NoneDisabled (store : Store) : Prop :=
  ∀ disabled ∈ store.disabledDriverIds, ∀ kind, ∀ a ∈ store.assignments kind,
    validateDriverAssignment a.driver disabled = true

/-- The two saves together would store a disabled assignment. -/
def conflicts (settings : SettingsSave) (assignment : AssignmentSave) : Bool :=
  settings.writesField && assignment.writesField &&
    !validateDriverAssignment assignment.driver settings.values

theorem validateDriverAssignment_nil (driver : String) :
    validateDriverAssignment driver [] = true := by
  simp [validateDriverAssignment, driverIsEnabled]

theorem validateDriverAssignment_eq_false {driver : String} {disabled : List String} :
    validateDriverAssignment driver disabled = false ↔
      driver ≠ "" ∧ ∃ value ∈ disabled, selectionId value = selectionId driver := by
  simp [validateDriverAssignment, driverIsEnabled]

theorem mem_usedSelections {kind : Kind} {a : Assignment} (ha : a ∈ store.assignments kind)
    (hdriver : a.driver ≠ "") : selectionId a.driver ∈ usedSelections store kind :=
  List.mem_map_of_mem (List.mem_filter.mpr ⟨ha, by simpa using hdriver⟩)

@[simp] theorem withAssignments_disabledDriverIds (store : Store) (kind : Kind)
    (rows : Table Assignment Assignment.pk) :
    (store.withAssignments kind rows).disabledDriverIds = store.disabledDriverIds := by
  cases kind <;> rfl

theorem assignments_withAssignments (store : Store) (kind kind' : Kind)
    (rows : Table Assignment Assignment.pk) :
    (store.withAssignments kind rows).assignments kind' =
      if kind' = kind then rows else store.assignments kind' := by
  cases kind <;> cases kind' <;> rfl

/-- The save of an assignment keeps the settings and adds its own driver at most. -/
theorem saveAssignment_spec {save : AssignmentSave} (h : saveAssignment save store = some store') :
    store'.disabledDriverIds = store.disabledDriverIds ∧
      ∀ kind, ∀ a ∈ store'.assignments kind, a ∈ store.assignments kind ∨
        (kind = save.kind ∧ a.driver = save.driver ∧ save.writesField = true) := by
  unfold saveAssignment at h
  cases hpk : save.pk with
  | none =>
    simp only [hpk] at h
    split at h
    · rename_i hfield
      rw [← Option.some.inj h]
      refine ⟨withAssignments_disabledDriverIds .., ?_⟩
      intro kind a ha
      rw [assignments_withAssignments] at ha
      split at ha
      · rename_i hkind
        subst kind
        rcases (Table.mem_insert ..).mp ha with hold | rfl
        · exact Or.inl hold
        · exact Or.inr ⟨rfl, rfl, hfield⟩
      · exact Or.inl ha
    · cases h
  | some pk =>
    simp only [hpk] at h
    split at h
    · rename_i hfield
      rw [← Option.some.inj h]
      refine ⟨withAssignments_disabledDriverIds .., ?_⟩
      intro kind a ha
      rw [assignments_withAssignments] at ha
      split at ha
      · rename_i hkind
        subst kind
        rcases (Table.mem_update ..).mp ha with ⟨hold, _⟩ | ⟨b, _, _, rfl⟩
        · exact Or.inl hold
        · exact Or.inr ⟨rfl, rfl, hfield⟩
      · exact Or.inl ha
    · rw [← Option.some.inj h]
      exact ⟨rfl, fun _ _ ha => Or.inl ha⟩

/-- The save of the settings keeps the assignments; it leaves the column as it is or
writes its own values, and only the save that found a row changes an existing one. -/
theorem saveSettings_spec {save : SettingsSave} {found : Bool}
    (h : saveSettings save found store = some store') :
    (∀ kind, store'.assignments kind = store.assignments kind) ∧
      (found = false → store.disabledDriverIds = none) ∧
      (store' = store ∨
        (save.writesField = true ∧ store'.disabledDriverIds = some save.values)) := by
  unfold saveSettings at h
  cases found with
  | true =>
    simp only [if_true] at h
    split at h
    · cases h
    · split at h
      · rename_i hfield
        rw [← Option.some.inj h]
        exact ⟨fun kind => by cases kind <;> rfl, by simp, Or.inr ⟨hfield, rfl⟩⟩
      · rw [← Option.some.inj h]
        exact ⟨fun _ => rfl, by simp, Or.inl rfl⟩
  | false =>
    simp only [Bool.false_eq_true, if_false] at h
    split at h
    · cases h
    · rename_i hnot
      rw [Bool.or_eq_true, not_or, Bool.not_eq_true, Option.isSome_eq_false_iff,
        Option.isNone_iff_eq_none] at hnot
      rw [← Option.some.inj h]
      exact ⟨fun kind => by cases kind <;> rfl, fun _ => hnot.1,
        Or.inr ⟨by simpa using hnot.2, rfl⟩⟩

end Checks

section Invariant

/-- The save that has passed its check without any settings row. -/
def Phase.unchecked? : Phase → Option AssignmentSave
  | .assignment save none => some save
  | _ => none

/-- The save that has counted the assignments of the model. -/
def Phase.counted? (kind : Kind) : Phase → Option SettingsSave
  | .settings save _ left _ => if kind ∈ left then none else some save
  | _ => none

def Phase.opened? : Phase → Option AssignmentSave
  | .opened (.assignment save) => some save
  | _ => none

def Phase.counting? : Phase → Option (Kind × SettingsSave)
  | .settings save _ (kind :: _) _ => some (kind, save)
  | _ => none

/-- What an open save may rely on: a locked row stays as it was read, every stored
assignment that it would disable has been counted, unless its insert will be refused,
and a save that found no row does not conflict with a row inserted since. -/
def Holds (store : Store) (t : Txn Unit Phase) : Prop :=
  match t.phase with
  | .opened _ => True
  | .settings save found left usage =>
    (found = true → () ∈ t.held ∧ store.disabledDriverIds.isSome) ∧
      ((found = false ∧ store.disabledDriverIds.isSome) ∨ ∀ kind ∉ left,
        ∀ a ∈ store.assignments kind, validateDriverAssignment a.driver save.values = false →
          save.writesField = true → selectionId a.driver ∈ usage)
  | .assignment save (some disabled) => () ∈ t.held ∧ store.disabledDriverIds = some disabled ∧
      validateDriverAssignment save.driver disabled = true
  | .assignment save none => ∀ disabled ∈ store.disabledDriverIds, save.writesField = true →
      validateDriverAssignment save.driver disabled = true

structure Inv (s : State) : Prop where
  exclusive : Exclusive s
  holds : AllTxns Holds s
  apart : ∀ t ∈ s.txns, ∀ save ∈ t.phase.unchecked?, ∀ other ∈ s.txns,
    ∀ settings ∈ other.phase.counted? save.kind, conflicts settings save = false
  none : NoneDisabled s.store

/-- While there is no settings row, a save of an assignment passes its check only when
no open save of the settings that would disable its driver has already counted its
model, and no model is counted while such a save of an assignment is open. -/
def SavesApart (s : State) : Label → Prop
  | .lock txn => ∀ t ∈ s.txns.rows, t.pk = txn → ∀ save ∈ t.phase.opened?,
    s.store.disabledDriverIds = none → ∀ other ∈ s.txns.rows,
      ∀ settings ∈ other.phase.counted? save.kind, conflicts settings save = false
  | .count txn => ∀ t ∈ s.txns.rows, t.pk = txn → ∀ counting ∈ t.phase.counting?,
    ∀ other ∈ s.txns.rows, ∀ save ∈ other.phase.unchecked?, save.kind = counting.1 →
      conflicts counting.2 save = false
  | _ => True

instance decidableSavesApart (s : State) : ∀ label, Decidable (SavesApart s label)
  | .lock txn => inferInstanceAs (Decidable (∀ t ∈ s.txns.rows, t.pk = txn →
    ∀ save ∈ t.phase.opened?, s.store.disabledDriverIds = none → ∀ other ∈ s.txns.rows,
      ∀ settings ∈ other.phase.counted? save.kind, conflicts settings save = false))
  | .count txn => inferInstanceAs (Decidable (∀ t ∈ s.txns.rows, t.pk = txn →
    ∀ counting ∈ t.phase.counting?, ∀ other ∈ s.txns.rows, ∀ save ∈ other.phase.unchecked?,
      save.kind = counting.1 → conflicts counting.2 save = false))
  | .begin _ | .commit _ | .abort _ => isTrue trivial

variable {s s' : State} {txn : ℕ} {store store' : Store}

theorem counted_of_unchecked {phase : Phase} {save : AssignmentSave} {kind : Kind}
    (h : phase.unchecked? = some save) : phase.counted? kind = none := by
  cases phase with
  | assignment _ _ => rfl
  | _ => cases h

theorem inv_idle (hnone : NoneDisabled s.store) (hidle : s.txns.rows = []) : Inv s := by
  have hempty : ∀ t, t ∉ s.txns := fun t ht => by
    rw [Table.mem_iff, hidle] at ht
    cases ht
  exact ⟨fun t ht => absurd ht (hempty t), fun t ht => absurd ht (hempty t),
    fun t ht => absurd ht (hempty t), hnone⟩

theorem inv_openTxn (h : Inv s) (save : Save) : Inv (openTxn s (.opened save)) where
  exclusive := exclusive_openTxn h.exclusive
  holds := allTxns_openTxn h.holds (fun _ => trivial)
  apart := by
    intro t ht save hsave other hother settings hsettings
    rcases mem_openTxn.mp ht with hold | rfl
    · rcases mem_openTxn.mp hother with hold' | rfl
      · exact h.apart t hold save hsave other hold' settings hsettings
      · cases hsettings
    · cases hsave
  none := h.none

theorem inv_advance {keys : List Unit} {phase : Phase} (h : Inv s)
    (hfree : ∀ k ∈ keys, lockedByOther s txn k = false)
    (hholds : ∀ t ∈ s.txns, t.pk = txn → Holds s.store (moveTo keys phase t))
    (hunchecked : ∀ save ∈ phase.unchecked?, ∀ other ∈ s.txns,
      ∀ settings ∈ other.phase.counted? save.kind, conflicts settings save = false)
    (hcounted : ∀ t ∈ s.txns, t.pk ≠ txn → ∀ save ∈ t.phase.unchecked?,
      ∀ settings ∈ phase.counted? save.kind, conflicts settings save = false) :
    Inv (advance s txn keys phase) where
  exclusive := exclusive_advance h.exclusive hfree
  holds := allTxns_advance h.holds hholds
  apart := by
    intro t ht save hsave other hother settings hsettings
    rcases mem_advance.mp ht with ⟨hold, hne⟩ | ⟨u, _, _, rfl⟩
    · rcases mem_advance.mp hother with ⟨hold', _⟩ | ⟨_, _, _, rfl⟩
      · exact h.apart t hold save hsave other hold' settings hsettings
      · exact hcounted t hold hne save hsave settings hsettings
    · rcases mem_advance.mp hother with ⟨hold', _⟩ | ⟨_, _, _, rfl⟩
      · exact hunchecked save hsave other hold' settings hsettings
      · have hsave : phase.unchecked? = some save := hsave
        have hsettings : phase.counted? save.kind = some settings := hsettings
        rw [counted_of_unchecked hsave] at hsettings
        cases hsettings
  none := h.none

theorem inv_endTxn (h : Inv s) : Inv (endTxn s txn s.store) where
  exclusive := exclusive_endTxn h.exclusive
  holds := allTxns_endTxn h.holds (fun _ _ _ => id)
  apart t ht save hsave other hother :=
    h.apart t (mem_endTxn.mp ht).1 save hsave other (mem_endTxn.mp hother).1
  none := h.none

/-- A save of the settings that passes its check disables no stored assignment. -/
theorem enabled_of_checked {t : Txn Unit Phase} {save : SettingsSave} {found : Bool}
    {left : List Kind} {usage : List String} (hholds : Holds store t)
    (hphase : t.phase = .settings save found left usage)
    (hcheck : save.values = [] ∨ (left = [] ∧ validateDisabledDrivers save.values usage = true))
    (hinsert : found = false → store.disabledDriverIds = none) (hfield : save.writesField = true)
    {kind : Kind} {a : Assignment} (ha : a ∈ store.assignments kind) :
    validateDriverAssignment a.driver save.values = true := by
  unfold Holds at hholds
  rw [hphase] at hholds
  rcases hcheck with hempty | ⟨rfl, hvalid⟩
  · rw [hempty]
    exact validateDriverAssignment_nil _
  · rcases hholds.2 with ⟨hfound, hsome⟩ | hcounted
    · rw [hinsert hfound] at hsome
      cases hsome
    · rw [← Bool.not_eq_false]
      intro hdisabled
      have husage := hcounted kind (by simp) a ha hdisabled hfield
      obtain ⟨_, value, hvalue, hsame⟩ := validateDriverAssignment_eq_false.mp hdisabled
      simp only [validateDisabledDrivers, Bool.not_eq_true', List.any_eq_false] at hvalid
      apply hvalid value hvalue
      rw [hsame]
      simpa using husage

theorem inv_commit_settings {t : Txn Unit Phase} (h : Inv s) (ht : t ∈ s.txns)
    {save : SettingsSave} {found : Bool} {left : List Kind} {usage : List String}
    (hphase : t.phase = .settings save found left usage)
    (hcheck : save.values = [] ∨ (left = [] ∧ validateDisabledDrivers save.values usage = true))
    (hsave : saveSettings save found s.store = some store') : Inv (endTxn s t.pk store') := by
  obtain ⟨hassignments, hinsert, hwritten⟩ := saveSettings_spec hsave
  have hholds := h.holds t ht
  have hlock : s.store.disabledDriverIds.isSome → () ∈ t.held := by
    intro hsome
    have hheld := hholds
    unfold Holds at hheld
    rw [hphase] at hheld
    cases found with
    | true => exact (hheld.1 rfl).1
    | false =>
      rw [hinsert rfl] at hsome
      cases hsome
  -- Another transaction with the lock on the row would be this one.
  have hother : ∀ u ∈ s.txns, u.pk ≠ t.pk → s.store.disabledDriverIds.isSome → () ∉ u.held :=
    fun u hu hne hsome hheld => hne (congrArg Txn.pk (h.exclusive u hu t ht () hheld (hlock hsome)))
  refine ⟨exclusive_endTxn h.exclusive, allTxns_endTxn h.holds ?_, ?_, ?_⟩
  · intro u hu hne huHolds
    obtain ⟨pk, held, phase⟩ := u
    cases phase with
    | opened _ => trivial
    | settings save' found' left' usage' =>
      cases found' with
      | true => exact absurd (huHolds.1 rfl).1 (hother _ hu hne (huHolds.1 rfl).2)
      | false =>
        refine ⟨fun hfalse => (by cases hfalse), ?_⟩
        rcases hwritten with rfl | ⟨_, hvalues⟩
        · exact huHolds.2
        · exact Or.inl ⟨rfl, by rw [hvalues]; rfl⟩
    | assignment save' selection =>
      cases selection with
      | some disabled =>
        exact absurd huHolds.1 (hother _ hu hne (by rw [huHolds.2.1]; rfl))
      | none =>
        intro disabled hdisabled hfield'
        rcases hwritten with rfl | ⟨hfield, hvalues⟩
        · exact huHolds disabled hdisabled hfield'
        · rw [hvalues] at hdisabled
          obtain rfl : save.values = disabled := Option.some.inj hdisabled
          rcases hcheck with hempty | ⟨rfl, _⟩
          · rw [hempty]
            exact validateDriverAssignment_nil _
          · have hapart := h.apart _ hu save' rfl t ht save (by rw [hphase]; rfl)
            simpa [conflicts, hfield, hfield'] using hapart
  · intro u hu save' hsave' other hother'
    exact h.apart u (mem_endTxn.mp hu).1 save' hsave' other (mem_endTxn.mp hother').1
  · intro disabled hdisabled kind a ha
    change a ∈ store'.assignments kind at ha
    rw [hassignments] at ha
    rcases hwritten with rfl | ⟨hfield, hvalues⟩
    · exact h.none disabled hdisabled kind a ha
    · have hdisabled : store'.disabledDriverIds = some disabled := hdisabled
      rw [hvalues, Option.some.injEq] at hdisabled
      rw [← hdisabled]
      exact enabled_of_checked hholds hphase hcheck hinsert hfield ha

theorem inv_commit_assignment {t : Txn Unit Phase} (h : Inv s) (ht : t ∈ s.txns)
    {save : AssignmentSave} {selection : Option (List String)}
    (hphase : t.phase = .assignment save selection)
    (hsave : saveAssignment save s.store = some store') : Inv (endTxn s t.pk store') := by
  obtain ⟨hsettings, hadded⟩ := saveAssignment_spec hsave
  have hholds := h.holds t ht
  unfold Holds at hholds
  rw [hphase] at hholds
  refine ⟨exclusive_endTxn h.exclusive, allTxns_endTxn h.holds ?_, ?_, ?_⟩
  · intro u hu hne huHolds
    obtain ⟨pk, held, phase⟩ := u
    cases phase with
    | opened _ => trivial
    | settings save' found' left' usage' =>
      refine ⟨fun hfound => ?_, ?_⟩
      · rw [hsettings]
        exact huHolds.1 hfound
      · rcases huHolds.2 with ⟨hfound, hsome⟩ | hcounted
        · exact Or.inl ⟨hfound, by rw [hsettings]; exact hsome⟩
        · cases selection with
          | some disabled =>
            -- The lock of this save and the row keep the other from writing.
            cases found' with
            | false => exact Or.inl ⟨rfl, by rw [hsettings, hholds.2.1]; rfl⟩
            | true =>
              have hsame := h.exclusive _ hu t ht () (huHolds.1 rfl).1 hholds.1
              exact absurd (congrArg Txn.pk hsame) hne
          | none =>
            right
            intro kind hkind a ha hdisabled hfield'
            rcases hadded kind a ha with hold | ⟨rfl, hdriver, hfield⟩
            · exact hcounted kind hkind a hold hdisabled hfield'
            · have hapart := h.apart t ht save (by rw [hphase]; rfl) _ hu save'
                (show (if save.kind ∈ left' then none else some save') = some save' from
                  if_neg hkind)
              rw [hdriver] at hdisabled
              simp [conflicts, hfield, hfield', hdisabled] at hapart
    | assignment save' selection' =>
      cases selection' with
      | some disabled =>
        refine ⟨huHolds.1, ?_, huHolds.2.2⟩
        rw [hsettings]
        exact huHolds.2.1
      | none =>
        intro disabled hdisabled
        rw [hsettings] at hdisabled
        exact huHolds disabled hdisabled
  · intro u hu save' hsave' other hother
    exact h.apart u (mem_endTxn.mp hu).1 save' hsave' other (mem_endTxn.mp hother).1
  · intro disabled hdisabled kind a ha
    change disabled ∈ store'.disabledDriverIds at hdisabled
    rw [hsettings] at hdisabled
    rcases hadded kind a ha with hold | ⟨_, hdriver, hfield⟩
    · exact h.none disabled hdisabled kind a hold
    · rw [hdriver]
      cases selection with
      | some locked =>
        obtain ⟨_, hlocked, hvalid⟩ := hholds
        rw [hlocked] at hdisabled
        obtain rfl : locked = disabled := Option.some.inj hdisabled
        exact hvalid
      | none => exact hholds disabled hdisabled hfield

theorem inv_lockedDriverSettings {t : Txn Unit Phase} {save : Save} {keys : List Unit} (h : Inv s)
    (ht : t ∈ s.txns) (hphase : t.phase = .opened save)
    (hguard : SavesApart s (.lock t.pk))
    (hfree : ∀ k ∈ keys, lockedByOther s t.pk k = false)
    (hkeys : s.store.disabledDriverIds.isSome → () ∈ keys) :
    Inv (lockedDriverSettings s t.pk keys save) := by
  have hheld : ∀ u : Txn Unit Phase, s.store.disabledDriverIds.isSome →
      () ∈ u.held ++ keys := fun u hsome => List.mem_append_right _ (hkeys hsome)
  cases save with
  | settings save =>
    refine inv_advance h hfree ?_ (fun _ hnone => by cases hnone) ?_
    · intro u _ _
      refine ⟨fun hsome => ⟨hheld u hsome, hsome⟩, Or.inr ?_⟩
      intro kind hkind
      cases kind <;> simp at hkind
    · intro _ _ _ save' _ settings hsettings
      cases hkind : save'.kind <;> rw [hkind] at hsettings <;> cases hsettings
  | assignment save =>
    simp only [lockedDriverSettings]
    split
    · rename_i hvalid
      refine inv_advance h hfree ?_ ?_ (fun _ _ _ _ _ _ hnone => by cases hnone)
      · intro u _ _
        cases hselection : s.store.disabledDriverIds with
        | none => exact fun _ hdisabled => by rw [hselection] at hdisabled; cases hdisabled
        | some disabled =>
          rw [hselection] at hvalid
          exact ⟨hheld u (by rw [hselection]; rfl), hselection, hvalid⟩
      · intro save' hsave' other hother
        cases hselection : s.store.disabledDriverIds with
        | some disabled =>
          rw [hselection] at hsave'
          cases hsave'
        | none =>
          rw [hselection] at hsave'
          obtain rfl : save = save' := Option.some.inj hsave'
          exact hguard t ht rfl save (by rw [hphase]; rfl) hselection other hother
    · exact inv_endTxn h

theorem inv_lock {t : Txn Unit Phase} (h : Inv s) (ht : t ∈ s.txns)
    (hguard : SavesApart s (.lock t.pk)) (hlock : lock s t.pk t.phase = some s') : Inv s' := by
  cases hphase : t.phase with
  | opened save =>
    simp only [hphase, lock] at hlock
    split at hlock
    · cases hlocked : lockedByOther s t.pk () with
      | true => simp [hlocked] at hlock
      | false =>
        rw [hlocked] at hlock
        rw [← Option.some.inj hlock]
        exact inv_lockedDriverSettings h ht hphase hguard (fun _ _ => hlocked) (by simp)
    · rename_i hnone
      rw [← Option.some.inj hlock]
      exact inv_lockedDriverSettings h ht hphase hguard (by simp) (fun hsome => absurd hsome hnone)
  | _ => simp [hphase, lock] at hlock

theorem inv_count {t : Txn Unit Phase} (h : Inv s) (ht : t ∈ s.txns)
    (hguard : SavesApart s (.count t.pk)) (hcount : count s t.pk t.phase = some s') : Inv s' := by
  cases hphase : t.phase with
  | settings save found left usage =>
    cases left with
    | nil => simp [hphase, count] at hcount
    | cons kind left =>
      simp only [hphase, count, Option.some.injEq] at hcount
      rw [← hcount]
      have hholds := h.holds t ht
      unfold Holds at hholds
      rw [hphase] at hholds
      refine inv_advance h (by simp) ?_ (fun _ hnone => by cases hnone) ?_
      · intro u hu hpk
        obtain rfl := s.txns.eq_of_key_eq hu ht hpk
        refine ⟨fun hfound => ?_, ?_⟩
        · obtain ⟨hheld, hsome⟩ := hholds.1 hfound
          exact ⟨List.mem_append_left _ hheld, hsome⟩
        · rcases hholds.2 with hrefused | hcounted
          · exact Or.inl hrefused
          · right
            intro kind' hkind' a ha hdisabled hfield
            by_cases hsame : kind' = kind
            · subst kind'
              apply List.mem_append_right
              exact mem_usedSelections ha (validateDriverAssignment_eq_false.mp hdisabled).1
            · apply List.mem_append_left
              exact hcounted kind' (by simp [hsame, hkind']) a ha hdisabled hfield
      · intro other hother _ save' hsave' settings hsettings
        have hsettings : (if save'.kind ∈ left then none else some save) = some settings :=
          hsettings
        by_cases hsame : save'.kind = kind
        · have hguarded := hguard t ht rfl (kind, save) (by rw [hphase]; rfl) other hother save'
            hsave' hsame
          split at hsettings
          · cases hsettings
          · rw [← Option.some.inj hsettings]
            exact hguarded
        · apply h.apart other hother save' hsave' t ht settings
          rw [hphase]
          show (if save'.kind ∈ kind :: left then none else some save) = some settings
          simpa [hsame] using hsettings
  | _ => simp [hphase, count] at hcount

theorem inv_step (label : Label) (h : Inv s) (hguard : SavesApart s label)
    (hstep : step s label = some s') : Inv s' := by
  cases label with
  | begin save =>
    rw [← Option.some.inj hstep]
    exact inv_openTxn h save
  | lock txn =>
    obtain ⟨t, hget, hlock⟩ := Option.bind_eq_some_iff.mp hstep
    obtain ⟨ht, rfl⟩ := (s.txns.get?_eq_some_iff _ _).mp hget
    exact inv_lock h ht hguard hlock
  | count txn =>
    obtain ⟨t, hget, hcount⟩ := Option.bind_eq_some_iff.mp hstep
    obtain ⟨ht, rfl⟩ := (s.txns.get?_eq_some_iff _ _).mp hget
    exact inv_count h ht hguard hcount
  | commit txn =>
    obtain ⟨t, hget, hcommit⟩ := Option.bind_eq_some_iff.mp hstep
    obtain ⟨ht, rfl⟩ := (s.txns.get?_eq_some_iff _ _).mp hget
    obtain ⟨store, hwrites, rfl⟩ := Option.map_eq_some_iff.mp hcommit
    cases hphase : t.phase with
    | opened save => simp [hphase, writes] at hwrites
    | settings save found left usage =>
      simp only [hphase, writes] at hwrites
      split at hwrites
      · rename_i hcheck
        exact inv_commit_settings h ht hphase hcheck hwrites
      · cases hwrites
    | assignment save selection =>
      simp only [hphase, writes] at hwrites
      exact inv_commit_assignment h ht hphase hwrites
  | abort txn =>
    obtain ⟨t, _, rfl⟩ := Option.map_eq_some_iff.mp hstep
    exact inv_endTxn h

end Invariant

section Results

/-- As long as the saves stay apart while there is no settings row, no disabled driver
is assigned in any state of the run. -/
theorem disabled_driver_never_assigned {s t : State} {labels : List Label}
    (hnone : NoneDisabled s.store) (hidle : s.txns.rows = [])
    (hguard : Guarded step SavesApart s labels) (hrun : exec step s labels = some t) :
    NoneDisabled t.store :=
  (invariant_of_step Inv (fun _ label _ => inv_step label) (inv_idle hnone hidle) hguard hrun).none

/-- A new installation, without a settings row and without assignments. -/
def newInstallation : State := ⟨⟨none, Table.empty, Table.empty⟩, Table.empty⟩

def disableSmos : Save := operationalSettingsSave ["siae_smos_auto"] true true

/-- The settings are saved first; the assignment of an alias is then refused, and that
of another driver is not. -/
def oneAfterTheOther : List Label :=
  [.begin disableSmos, .lock 1, .count 1, .count 1, .commit 1,
    .begin (backupTargetSave none "siae_ags20" true), .lock 2,
    .begin (backupTargetSave none "cisco_ios" true), .lock 3, .commit 3]

theorem disabled_driver_never_assigned_ordered :
    ∃ t, exec step newInstallation oneAfterTheOther = some t ∧
      t.store.targets.rows.map Assignment.driver = ["cisco_ios"] ∧ NoneDisabled t.store := by
  obtain ⟨t, hrun, ht⟩ := (Option.any_eq_true _ _).mp (by decide +kernel :
    (exec step newInstallation oneAfterTheOther).any
      (fun t => decide (t.store.targets.rows.map Assignment.driver = ["cisco_ios"])) = true)
  refine ⟨t, hrun, of_decide_eq_true ht, disabled_driver_never_assigned ?_ rfl
    (by decide +kernel : Guarded step SavesApart newInstallation oneAfterTheOther) hrun⟩
  intro disabled hdisabled
  cases hdisabled

/-- Without a settings row a target and the settings are saved at once: the target
finds nothing disabled, and the settings find nothing in use. -/
def overlappingSaves : List Label :=
  [.begin (backupTargetSave none "siae_ags20" true), .lock 1, .begin disableSmos, .lock 2,
    .count 2, .count 2, .commit 1, .commit 2]

theorem disabled_driver_assigned :
    ¬ ∀ (s t : State) (labels : List Label), NoneDisabled s.store → s.txns.rows = [] →
      exec step s labels = some t → t.txns.rows = [] → NoneDisabled t.store := by
  intro h
  obtain ⟨t, hrun, ht⟩ := (Option.any_eq_true _ _).mp (by decide +kernel :
    (exec step newInstallation overlappingSaves).any (fun t => decide (t.txns.rows = []) &&
      decide (∃ disabled ∈ t.store.disabledDriverIds, ∃ a ∈ t.store.targets.rows,
        validateDriverAssignment a.driver disabled = false)) = true)
  obtain ⟨hidle, hassigned⟩ := Bool.and_eq_true_iff.mp ht
  obtain ⟨disabled, hdisabled, a, ha, hinvalid⟩ := of_decide_eq_true hassigned
  have hvalid := h newInstallation t overlappingSaves (fun _ hnone => by cases hnone) rfl hrun
    (of_decide_eq_true hidle) disabled hdisabled .backupTarget a ha
  rw [hvalid] at hinvalid
  cases hinvalid

end Results

end ConfigBackup.DriverSettings
