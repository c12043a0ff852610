import ConfigBackup.LocalStorage
import ConfigBackup.PosixPaths
import ConfigBackup.Requests
import Mathlib

/-!
The S3 storage. A staged deletion copies the object into the quarantine and deletes the
original; a restore copies it back and deletes the staged object. Any request may fail,
with or without its effect.
-/

namespace ConfigBackup.S3Storage

open LocalStorage PosixPaths Requests Text

/-- The objects of the bucket by their keys. -/
abbrev Bucket := String → Option (List UInt8)

/-- A client error, which may say that the object is absent, or a `StorageError`. -/
inductive Raised
  | client (notFound : Bool)
  | storage (message : String)
deriving DecidableEq, Repr

structure Metadata where
  etag : String
  contentLength : ℕ
deriving DecidableEq, Repr

section Keys

/-- `_validate_key`: the key without empty and dot components. -/
def validateKey (key : String) : Option String :=
  let parts := components key.toList
  if key = "" ∨ '\\' ∈ key.toList ∨ key.toList.head? = some '/' ∨ parts.contains ['.', '.'] then none
  else if parts = [] then some "."
  else some (String.ofList (joinWith '/' parts))

/-- `_object_key`. -/
def objectKey (storagePrefix key : String) : Option String :=
  (validateKey key).map (fun logical =>
    if storagePrefix = "" then logical else storagePrefix ++ "/" ++ logical)

end Keys

section Program

variable (etagOf : List UInt8 → String) (storagePrefix : String) (fates : ℕ → Fate)

/-- A request about one key; an invalid key raises before anything is sent. -/
def withKey {α : Type} (key : String) (f : String → Requests Bucket Raised α) :
    Requests Bucket Raised α :=
  match objectKey storagePrefix key with
  | none => throw (.storage "Invalid storage key.")
  | some objectKey => f objectKey

def headObject (objectKey : String) : Requests Bucket Raised Metadata :=
  request fates (.client false) (fun bucket =>
    match bucket objectKey with
    | none => (.error (.client true), bucket)
    | some content => (.ok ⟨etagOf content, content.length⟩, bucket))

/-- A server-side copy, on the condition that the source still has the tag. -/
def copyObject (source destination etag : String) : Requests Bucket Raised Unit :=
  request fates (.client false) (fun bucket =>
    match bucket source with
    | none => (.error (.client true), bucket)
    | some content =>
      if etagOf content = etag then
        (.ok (), Function.update bucket destination (some content))
      else (.error (.client false), bucket))

/-- Deleting an absent object is no error. -/
def deleteObject (objectKey : String) : Requests Bucket Raised Unit :=
  request fates (.client false) (fun bucket => (.ok (), Function.update bucket objectKey none))

/-- `exists`. -/
def objectExists (key : String) : Requests Bucket Raised Bool :=
  handle (withKey storagePrefix key (fun k => do
      let _ ← headObject etagOf fates k
      pure true))
    (fun
      | .client true => pure false
      | _ => throw (.storage "S3 configuration existence check failed."))

def delete (key : String) : Requests Bucket Raised Unit :=
  handle (withKey storagePrefix key (deleteObject fates))
    (fun _ => throw (.storage "S3 configuration delete failed."))

/-- `_copy`. -/
def copy (sourceKey destinationKey : String) : Requests Bucket Raised Unit :=
  handle (withKey storagePrefix sourceKey (fun source => do
      let found ← headObject etagOf fates source
      withKey storagePrefix destinationKey (fun destination => do
        copyObject etagOf fates source destination found.etag
        let copied ← headObject etagOf fates destination
        if copied.contentLength ≠ found.contentLength then
          throw (.storage "S3 quarantine copy failed its size check.")
        else pure ())))
    (fun
      | .storage message => throw (.storage message)
      | .client _ => throw (.storage "S3 configuration copy failed."))

/-- `stage_delete`; a staged object comes back with its key. -/
def stageDelete (key ns : String) : Requests Bucket Raised (Option String) :=
  if !validNamespace ns then throw (.storage "Invalid storage quarantine namespace.")
  else do
    if !(← objectExists etagOf storagePrefix fates key) then pure none
    else
      match validateKey key with
      | none => throw (.storage "Invalid storage key.")
      | some logical =>
        let staged := stagedKey ns logical
        if ← objectExists etagOf storagePrefix fates staged then
          throw (.storage "Storage quarantine object already exists.")
        else do
          copy etagOf storagePrefix fates key staged
          handle (delete storagePrefix fates key) (fun e => do
            handle (delete storagePrefix fates staged) (fun _ => pure ())
            throw e)
          pure (some staged)

/-- `restore_staged_delete`. -/
def restoreStagedDelete (key staged : String) : Requests Bucket Raised Unit := do
  if !(← objectExists etagOf storagePrefix fates staged) then
    throw (.storage "Quarantined configuration object is missing.")
  else if ← objectExists etagOf storagePrefix fates key then
    throw (.storage "Configuration restore destination already exists.")
  else do
    copy etagOf storagePrefix fates staged key
    delete storagePrefix fates staged

end Program

section KeyFacts

variable {storagePrefix key ns k s : String}

/-- The key of the bucket where the object of a key is staged. -/
def stagedObjectKey (storagePrefix ns key : String) : Option String :=
  (validateKey key).bind (fun logical => objectKey storagePrefix (stagedKey ns logical))

theorem components_validateKey {logical : String} (h : validateKey key = some logical) :
    components logical.toList = components key.toList := by
  unfold validateKey at h
  dsimp only at h
  split at h
  · cases h
  · split at h
    · rename_i hnil
      rw [← Option.some.inj h, hnil]
      decide
    · rw [← Option.some.inj h, String.toList_ofList,
        components_joinWith (fun part hpart => isComponent_of_mem hpart)]

theorem validateKey_safe {logical : String} (h : validateKey key = some logical) :
    '\\' ∉ logical.toList ∧ ['.', '.'] ∉ components logical.toList := by
  have hcomponents := components_validateKey h
  unfold validateKey at h
  dsimp only at h
  split at h
  · cases h
  · rename_i hvalid
    rw [not_or, not_or, not_or] at hvalid
    rw [hcomponents]
    refine ⟨?_, fun hmem => hvalid.2.2.2 (List.contains_iff_mem.mpr hmem)⟩
    split at h
    · rw [← Option.some.inj h]
      decide
    · rw [← Option.some.inj h, String.toList_ofList]
      intro hmem
      rcases mem_joinWith hmem with hc | ⟨part, hpart, hc⟩
      · revert hc
        decide
      · exact hvalid.2.1 (mem_of_mem_components hpart hc)

/-- The object of a key is staged in a valid namespace under a valid key. -/
theorem stagedObjectKey_eq (hns : validNamespace ns = true)
    (hkey : objectKey storagePrefix key = some k) :
    ∃ logical s, validateKey key = some logical ∧
      objectKey storagePrefix (stagedKey ns logical) = some s ∧
      stagedObjectKey storagePrefix ns key = some s := by
  obtain ⟨logical, hlogical, -⟩ := Option.map_eq_some_iff.mp hkey
  have hslash : '/' ∉ ns.toList := not_mem_of_validNamespace hns rfl
  have hdot : '.' ∉ ns.toList := not_mem_of_validNamespace hns rfl
  have hns' : IsComponent ns.toList :=
    ⟨ne_nil_of_validNamespace hns, fun heq => hdot (by simp [heq]), hslash⟩
  obtain ⟨hbackslash, hparents⟩ := validateKey_safe hlogical
  have hvalid : ∃ staged, validateKey (stagedKey ns logical) = some staged := by
    unfold validateKey
    dsimp only
    rw [toList_stagedKey, components_cons (by unfold IsComponent; decide), components_cons hns',
      if_neg, if_neg (List.cons_ne_nil _ _)]
    · exact ⟨_, rfl⟩
    · rintro (h | h | h | h)
      · have hlist := congrArg String.toList h
        rw [toList_stagedKey] at hlist
        simp at hlist
      · have hnot : '\\' ∉ ns.toList := not_mem_of_validNamespace hns rfl
        simp [hnot, hbackslash] at h
      · simp at h
      · rw [List.contains_iff_mem, List.mem_cons, List.mem_cons] at h
        rcases h with h | h | h
        · revert h
          decide
        · exact hdot (by simp [← h])
        · exact hparents h
  obtain ⟨staged, hvalid⟩ := hvalid
  refine ⟨logical, _, hlogical, by rw [objectKey, hvalid]; rfl, ?_⟩
  rw [stagedObjectKey, hlogical, Option.bind_some, objectKey, hvalid]
  rfl

/-- An object and its staged copy lie under different keys. -/
theorem stagedObjectKey_ne (hkey : objectKey storagePrefix key = some k)
    (hstaged : stagedObjectKey storagePrefix ns key = some s) : k ≠ s := by
  obtain ⟨logical, hlogical, hk⟩ := Option.map_eq_some_iff.mp hkey
  unfold stagedObjectKey at hstaged
  rw [hlogical, Option.bind_some] at hstaged
  obtain ⟨staged, hvalid, hs⟩ := Option.map_eq_some_iff.mp hstaged
  have hcomponents : components staged.toList =
      components (".retention-trash/" ++ ns).toList ++ components logical.toList := by
    rw [components_validateKey hvalid, ← components_append]
    congr 1
    unfold stagedKey
    simp
  have hhead : components (".retention-trash/" ++ ns).toList ≠ [] := by
    have htext : (".retention-trash/" ++ ns).toList =
        ".retention-trash".toList ++ '/' :: ns.toList := by
      rw [String.toList_append]
      rfl
    rw [htext, components_cons (by unfold IsComponent; decide)]
    exact List.cons_ne_nil _ _
  intro heq
  have hsame : logical = staged := by
    rw [← hk, ← hs] at heq
    split at heq
    · exact heq
    · exact (String.append_right_inj _).mp heq
  have hlength := congrArg List.length hcomponents
  rw [hsame, List.length_append] at hlength
  have hpos := List.length_pos_iff.mpr hhead
  omega

end KeyFacts

section Steps

variable {etagOf : List UInt8 → String} {storagePrefix key k d source destination : String}
  {fates : ℕ → Fate} {c : Client Bucket} {content : List UInt8}

theorem objectExists_eq (hkey : objectKey storagePrefix key = some k) :
    objectExists etagOf storagePrefix fates key c =
      if fates c.passed.length = .answered then
        .ok (c.world k).isSome ⟨c.world, c.passed ++ [c.world]⟩
      else .error (.storage "S3 configuration existence check failed.")
        ⟨c.world, c.passed ++ [c.world]⟩ := by
  unfold objectExists handle withKey headObject request
  simp only [hkey, bind, EStateM.bind]
  cases hfate : fates c.passed.length with
  | lost => rfl
  | unanswered => cases hcontent : c.world k <;> simp [throw, throwThe, MonadExceptOf.throw,
      EStateM.throw]
  | answered => cases hcontent : c.world k <;> rfl

variable (fates) in
theorem delete_eq (hkey : objectKey storagePrefix key = some k) :
    delete storagePrefix fates key c =
      match fates c.passed.length with
      | .answered => .ok () ⟨Function.update c.world k none, c.passed ++ [c.world]⟩
      | .lost => .error (.storage "S3 configuration delete failed.")
          ⟨c.world, c.passed ++ [c.world]⟩
      | .unanswered => .error (.storage "S3 configuration delete failed.")
          ⟨Function.update c.world k none, c.passed ++ [c.world]⟩ := by
  unfold delete handle withKey deleteObject request
  simp only [hkey]
  cases hfate : fates c.passed.length <;> rfl

theorem headObject_eq :
    headObject etagOf fates k c =
      if fates c.passed.length = .answered then
        match c.world k with
        | none => .error (.client true) ⟨c.world, c.passed ++ [c.world]⟩
        | some content => .ok ⟨etagOf content, content.length⟩ ⟨c.world, c.passed ++ [c.world]⟩
      else .error (.client false) ⟨c.world, c.passed ++ [c.world]⟩ := by
  unfold headObject request
  cases hfate : fates c.passed.length with
  | lost => rfl
  | unanswered => cases hcontent : c.world k <;> simp [hcontent]
  | answered => cases hcontent : c.world k <;> simp [hcontent]

theorem copyObject_eq (hcontent : c.world k = some content) :
    copyObject etagOf fates k d (etagOf content) c =
      match fates c.passed.length with
      | .answered =>
        .ok () ⟨Function.update c.world d (some content), c.passed ++ [c.world]⟩
      | .lost => .error (.client false) ⟨c.world, c.passed ++ [c.world]⟩
      | .unanswered =>
        .error (.client false) ⟨Function.update c.world d (some content), c.passed ++ [c.world]⟩ := by
  unfold copyObject request
  cases hfate : fates c.passed.length <;> simp [hcontent]

variable (etagOf fates) in
/-- A copy from one key to another returns when its three requests are answered; otherwise
it raises with at most the copy made. -/
theorem copy_spec (hsource : objectKey storagePrefix source = some k)
    (hdestination : objectKey storagePrefix destination = some d)
    (hcontent : c.world k = some content) :
    let copied := Function.update c.world d (some content)
    (∃ t, copy etagOf storagePrefix fates source destination c = .ok () t ∧ t.world = copied ∧
        t.passed = c.passed ++ [c.world, c.world, copied] ∧
        ∀ n < 3, fates (c.passed.length + n) = .answered) ∨
      ∃ e t, copy etagOf storagePrefix fates source destination c = .error e t ∧
        (t.world = c.world ∨ t.world = copied) ∧
        (∀ w ∈ t.passed, w ∈ c.passed ∨ w = c.world ∨ w = copied) ∧
        ∃ n < 3, fates (c.passed.length + n) ≠ .answered := by
  intro copied
  unfold copy handle withKey
  simp only [hsource, hdestination, bind, EStateM.bind, headObject_eq, hcontent]
  by_cases hhead : fates c.passed.length = .answered
  swap
  · right
    simp only [if_neg hhead]
    refine ⟨_, _, rfl, Or.inl rfl, ?_, 0, by omega, hhead⟩
    intro w hw
    rcases List.mem_append.mp hw with hw | hw
    · exact Or.inl hw
    · exact Or.inr (Or.inl (List.mem_singleton.mp hw))
  simp only [if_pos hhead, copyObject_eq (c := ⟨c.world, c.passed ++ [c.world]⟩) hcontent,
    List.length_append, List.length_singleton]
  have hmem : ∀ w ∈ c.passed ++ [c.world] ++ [c.world],
      w ∈ c.passed ∨ w = c.world ∨ w = copied := by
    intro w hw
    simp only [List.mem_append, List.mem_singleton] at hw
    tauto
  cases hcopy : fates (c.passed.length + 1) with
  | lost =>
    exact Or.inr ⟨_, _, rfl, Or.inl rfl, hmem, 1, by omega, by simp [hcopy]⟩
  | unanswered =>
    exact Or.inr ⟨_, _, rfl, Or.inr rfl, hmem, 1, by omega, by simp [hcopy]⟩
  | answered =>
    simp only [Function.update_self, List.length_append, List.length_singleton]
    by_cases hcheck : fates (c.passed.length + 1 + 1) = .answered
    · left
      simp only [if_pos hcheck]
      refine ⟨⟨copied, c.passed ++ [c.world, c.world, copied]⟩, ?_, rfl, rfl, ?_⟩
      · simp [copied, pure, EStateM.pure]
      intro n hn
      have hcases : n = 0 ∨ n = 1 ∨ n = 2 := by omega
      rcases hcases with rfl | rfl | rfl
      · exact hhead
      · exact hcopy
      · exact hcheck
    · right
      simp only [if_neg hcheck]
      refine ⟨_, _, rfl, Or.inr rfl, ?_, 2, by omega, hcheck⟩
      intro w hw
      rcases List.mem_append.mp hw with hw | hw
      · exact hmem w hw
      · exact Or.inr (Or.inr (List.mem_singleton.mp hw))

variable (fates) in
/-- The cleanup after a failed deletion raises nothing. -/
theorem cleanup_spec (hkey : objectKey storagePrefix key = some k) :
    ∃ t, handle (delete storagePrefix fates key) (fun _ => pure ()) c = .ok () t ∧
      t.passed = c.passed ++ [c.world] ∧
      (t.world = c.world ∨ t.world = Function.update c.world k none) := by
  have hdelete := delete_eq fates (c := c) hkey
  cases hfate : fates c.passed.length with
  | answered =>
    rw [hfate] at hdelete
    exact ⟨_, handle_ok hdelete, rfl, Or.inr rfl⟩
  | lost =>
    rw [hfate] at hdelete
    exact ⟨_, handle_error hdelete, rfl, Or.inl rfl⟩
  | unanswered =>
    rw [hfate] at hdelete
    exact ⟨_, handle_error hdelete, rfl, Or.inr rfl⟩

end Steps

section Properties

/-- The bytes of an object lie under its key or under its staged key. -/
def Held (k : String) (staged : Option String) (content : List UInt8) (bucket : Bucket) : Prop :=
  bucket k = some content ∨ staged.bind bucket = some content

/-- Attempts to restore, whatever each of them raises. -/
def restores (etagOf : List UInt8 → String) (storagePrefix : String) (fates : ℕ → Fate)
    (key staged : String) : ℕ → Requests Bucket Raised Unit
  | 0 => pure ()
  | n + 1 => do
    handle (restoreStagedDelete etagOf storagePrefix fates key staged) (fun _ => pure ())
    restores etagOf storagePrefix fates key staged n

/-- A staging that raises leaves the bytes under the key. After one that returns, the bytes
are held through all attempts to restore, and one that returns has moved them back. -/
def LosesNothing (etagOf : List UInt8 → String) (storagePrefix : String) (fates : ℕ → Fate)
    (ns key k : String) (content : List UInt8) (bucket : Bucket) : Prop :=
  let place := stagedObjectKey storagePrefix ns key
  match stageDelete etagOf storagePrefix fates key ns ⟨bucket, []⟩ with
  | .error _ t => (∀ w ∈ t.passed, Held k place content w) ∧ t.world k = some content
  | .ok none t => ∀ w ∈ t.passed ++ [t.world], Held k place content w
  | .ok (some staged) t => ∀ n,
      match restores etagOf storagePrefix fates key staged n t with
      | .error _ _ => False
      | .ok _ u => (∀ w ∈ u.passed ++ [u.world], Held k place content w) ∧
          match restoreStagedDelete etagOf storagePrefix fates key staged u with
          | .error _ _ => True
          | .ok _ v => v.world k = some content ∧ place.bind v.world = none

end Properties

section Restores

variable {etagOf : List UInt8 → String} {storagePrefix key k d s source destination : String}
  {fates : ℕ → Fate} {content : List UInt8} {inv pre : Bucket → Prop}

theorem runs_objectExists (hkey : objectKey storagePrefix key = some k)
    (hinv : ∀ w, pre w → inv w) :
    Runs inv pre (objectExists etagOf storagePrefix fates key)
      (fun found w => found = (w k).isSome ∧ pre w) (fun _ => pre) := by
  intro c hpassed hc
  have hnext := passed_snoc hpassed (hinv _ hc)
  rw [objectExists_eq hkey]
  split
  · rename_i a d heq
    split at heq
    · cases heq
      exact ⟨hnext, rfl, hc⟩
    · cases heq
  · rename_i e d heq
    split at heq
    · cases heq
    · cases heq
      exact ⟨hnext, hc⟩

theorem runs_delete (hkey : objectKey storagePrefix key = some k) (hinv : ∀ w, pre w → inv w) :
    Runs inv pre (delete storagePrefix fates key)
      (fun _ w => ∃ v, pre v ∧ w = Function.update v k none)
      (fun _ w => ∃ v, pre v ∧ (w = v ∨ w = Function.update v k none)) := by
  intro c hpassed hc
  have hnext := passed_snoc hpassed (hinv _ hc)
  rw [delete_eq fates hkey]
  cases fates c.passed.length with
  | answered => exact ⟨hnext, _, hc, rfl⟩
  | lost => exact ⟨hnext, _, hc, Or.inl rfl⟩
  | unanswered => exact ⟨hnext, _, hc, Or.inr rfl⟩

theorem runs_copy (hsource : objectKey storagePrefix source = some s)
    (hdestination : objectKey storagePrefix destination = some d)
    (hcontent : ∀ w, pre w → w s = some content) (hinv : ∀ w, pre w → inv w)
    (hcopied : ∀ w, pre w → inv (Function.update w d (some content))) :
    Runs inv pre (copy etagOf storagePrefix fates source destination)
      (fun _ w => ∃ v, pre v ∧ w = Function.update v d (some content))
      (fun _ w => ∃ v, pre v ∧ (w = v ∨ w = Function.update v d (some content))) := by
  intro c hpassed hc
  rcases copy_spec etagOf fates hsource hdestination (hcontent _ hc) with
    ⟨t, hrun, hworld, ht, -⟩ | ⟨e, t, hrun, hworld, ht, -⟩
  · rw [hrun]
    refine ⟨?_, _, hc, hworld⟩
    intro w hw
    rw [ht] at hw
    simp only [List.mem_append, List.mem_cons, List.not_mem_nil, or_false] at hw
    rcases hw with hw | rfl | rfl | rfl
    · exact hpassed w hw
    · exact hinv _ hc
    · exact hinv _ hc
    · exact hcopied _ hc
  · rw [hrun]
    refine ⟨?_, _, hc, hworld⟩
    intro w hw
    rcases ht w hw with hw | rfl | rfl
    · exact hpassed w hw
    · exact hinv _ hc
    · exact hcopied _ hc

end Restores

section Attempts

variable {etagOf : List UInt8 → String} {storagePrefix key staged k s : String}
  {fates : ℕ → Fate} {content : List UInt8} {inv : Bucket → Prop}

/-- Under a key and its staged key lie only the bytes of the object, at least once. -/
structure Copies (k s : String) (content : List UInt8) (bucket : Bucket) : Prop where
  held : bucket k = some content ∨ bucket s = some content
  original : ∀ found, bucket k = some found → found = content
  staged : ∀ found, bucket s = some found → found = content

variable (etagOf fates) in
/-- An attempt to restore keeps the bytes, and has moved them when it returns. -/
theorem restore_spec (hkey : objectKey storagePrefix key = some k)
    (hstaged : objectKey storagePrefix staged = some s) (hne : k ≠ s)
    (hinv : ∀ w, Copies k s content w → inv w) :
    Runs inv (Copies k s content)
      (restoreStagedDelete etagOf storagePrefix fates key staged)
      (fun _ w => Copies k s content w ∧ w k = some content ∧ w s = none)
      (fun _ => Copies k s content) := by
  unfold restoreStagedDelete
  refine Runs.bind (runs_objectExists hstaged hinv) fun found => ?_
  cases found with
  | false => exact runs_throw fun w hw => hw.2
  | true =>
    refine Runs.bind ((runs_objectExists hkey fun w hw => hinv w hw.2).mono (fun _ _ h => h)
      (fun _ _ h => h.2)) fun occupied => ?_
    cases occupied with
    | true => exact runs_throw fun w hw => hw.2.2
    | false =>
      -- The staged object is the only one, and its copy is made before it is deleted.
      have hstart : ∀ w, (false = (w k).isSome ∧ true = (w s).isSome ∧ Copies k s content w) →
          w s = some content := by
        rintro w ⟨-, hsome, hw⟩
        obtain ⟨found, hfound⟩ := Option.isSome_iff_exists.mp hsome.symm
        rw [hfound, hw.staged _ hfound]
      have hboth : ∀ w, w s = some content → Copies k s content w →
          Function.update w k (some content) s = some content ∧
            Copies k s content (Function.update w k (some content)) := by
        intro w hs hw
        have hkept : Function.update w k (some content) s = w s :=
          Function.update_of_ne hne.symm _ _
        refine ⟨hkept.trans hs, Or.inl (Function.update_self _ _ _), ?_, ?_⟩
        · intro found hfound
          rw [Function.update_self] at hfound
          exact (Option.some.inj hfound).symm
        · intro found hfound
          exact hw.staged found (hkept ▸ hfound)
      have hmoved : ∀ w, w k = some content → Copies k s content w →
          Function.update w s none k = some content ∧ Function.update w s none s = none ∧
            Copies k s content (Function.update w s none) := by
        intro w hk hw
        have hkept : Function.update w s none k = w k := Function.update_of_ne hne _ _
        refine ⟨hkept.trans hk, Function.update_self _ _ _, Or.inl (hkept.trans hk), ?_, ?_⟩
        · intro found hfound
          exact hw.original found (hkept ▸ hfound)
        · intro found hfound
          rw [Function.update_self] at hfound
          cases hfound
      refine Runs.bind (?_ : Runs _ _ _ (fun _ w => w k = some content ∧ Copies k s content w) _)
        fun _ => ?_
      · refine (runs_copy hstaged hkey hstart (fun w hw => hinv w hw.2.2)
          fun w hw => hinv _ (hboth w (hstart w hw) hw.2.2).2).mono ?_ ?_
        · rintro _ w ⟨v, hv, rfl⟩
          exact ⟨Function.update_self _ _ _, (hboth v (hstart v hv) hv.2.2).2⟩
        · rintro _ w ⟨v, hv, rfl | rfl⟩
          · exact hv.2.2
          · exact (hboth v (hstart v hv) hv.2.2).2
      · refine (runs_delete hstaged fun w hw => hinv w hw.2).mono ?_ ?_
        · rintro _ w ⟨v, ⟨hk, hv⟩, rfl⟩
          obtain ⟨horiginal, habsent, hcopies⟩ := hmoved v hk hv
          exact ⟨hcopies, horiginal, habsent⟩
        · rintro _ w ⟨v, ⟨hk, hv⟩, rfl | rfl⟩
          · exact hv
          · exact (hmoved v hk hv).2.2

variable (etagOf fates) in
theorem restores_spec (hkey : objectKey storagePrefix key = some k)
    (hstaged : objectKey storagePrefix staged = some s) (hne : k ≠ s)
    (hinv : ∀ w, Copies k s content w → inv w) (n : ℕ) :
    Runs inv (Copies k s content)
      (restores etagOf storagePrefix fates key staged n) (fun _ => Copies k s content)
      (fun _ _ => False) := by
  induction n with
  | zero => exact runs_pure fun w hw => hw
  | succ n ih =>
    refine Runs.bind (?_ : Runs _ _ _ (fun _ => Copies k s content) _) fun _ => ih
    refine Runs.handle ((restore_spec etagOf fates hkey hstaged hne hinv).mono (fun _ _ h => h.1)
      fun _ _ h => h) fun _ => runs_pure fun w hw => hw

end Attempts

section Staging

variable {etagOf : List UInt8 → String} {storagePrefix ns key k s logical : String}
  {fates : ℕ → Fate} {content : List UInt8} {bucket : Bucket}

variable (etagOf fates) in
/-- A staging either raises with the object in place, or it comes to the deletion of the
original after five answered requests, which made the staged copy. -/
theorem stageDelete_spec (hns : validNamespace ns = true)
    (hkey : objectKey storagePrefix key = some k) (hlogical : validateKey key = some logical)
    (hstaged : objectKey storagePrefix (stagedKey ns logical) = some s) (hne : k ≠ s)
    (hcontent : bucket k = some content) :
    let run := stageDelete etagOf storagePrefix fates key ns ⟨bucket, []⟩
    let copied := Function.update bucket s (some content)
    let reached := bucket s = none ∧ ∀ n < 5, fates n = .answered
    (∃ e t, run = .error e t ∧ (∀ w ∈ t.passed ++ [t.world], w k = some content) ∧
        ¬ (reached ∧ fates 5 ≠ .lost)) ∨
      (∃ t, run = .ok (some (stagedKey ns logical)) t ∧
        (∀ w ∈ t.passed, w k = some content) ∧ t.world = Function.update copied k none ∧
        reached ∧ fates 5 = .answered) ∨
      (∃ e t, run = .error e t ∧ t.world k = none ∧ reached ∧ fates 5 = .unanswered) := by
  intro run copied reached
  have hcopied : copied k = some content := by
    rw [← hcontent]
    exact Function.update_of_ne hne _ _
  have hstart : run = stageDelete etagOf storagePrefix fates key ns ⟨bucket, []⟩ := rfl
  unfold stageDelete at hstart
  rw [hns, hlogical] at hstart
  simp only [Bool.not_true, Bool.false_eq_true, if_false] at hstart
  by_cases h0 : fates 0 = .answered
  swap
  · left
    have hfirst : objectExists etagOf storagePrefix fates key ⟨bucket, []⟩ =
        .error (.storage "S3 configuration existence check failed.") ⟨bucket, [bucket]⟩ := by
      rw [objectExists_eq hkey]
      exact if_neg h0
    rw [bind_error hfirst] at hstart
    exact ⟨_, _, hstart, by simp [hcontent], fun h => h0 (h.1.2 0 (by omega))⟩
  have hfirst : objectExists etagOf storagePrefix fates key ⟨bucket, []⟩ =
      .ok true ⟨bucket, [bucket]⟩ := by
    rw [objectExists_eq hkey]
    simp only [List.length_nil, if_pos h0, hcontent]
    rfl
  rw [bind_ok hfirst] at hstart
  simp only [Bool.not_true, Bool.false_eq_true, if_false] at hstart
  by_cases h1 : fates 1 = .answered
  swap
  · left
    have hsecond : objectExists etagOf storagePrefix fates (stagedKey ns logical)
        ⟨bucket, [bucket]⟩ = .error (.storage "S3 configuration existence check failed.")
          ⟨bucket, [bucket, bucket]⟩ := by
      rw [objectExists_eq hstaged]
      exact if_neg h1
    rw [bind_error hsecond] at hstart
    exact ⟨_, _, hstart, by simp [hcontent], fun h => h1 (h.1.2 1 (by omega))⟩
  have hsecond : objectExists etagOf storagePrefix fates (stagedKey ns logical)
      ⟨bucket, [bucket]⟩ = .ok (bucket s).isSome ⟨bucket, [bucket, bucket]⟩ := by
    rw [objectExists_eq hstaged]
    exact if_pos h1
  rw [bind_ok hsecond] at hstart
  by_cases hfree : bucket s = none
  swap
  · left
    rw [Option.isSome_iff_ne_none.mpr hfree] at hstart
    exact ⟨_, _, hstart, by simp [hcontent], fun h => hfree h.1.1⟩
  rw [hfree] at hstart
  simp only [Option.isSome_none, Bool.false_eq_true, if_false] at hstart
  rcases copy_spec etagOf fates (c := ⟨bucket, [bucket, bucket]⟩) hkey
    hstaged hcontent with ⟨t, hcopy, hworld, hpassed, hanswered⟩ |
      ⟨e, t, hcopy, hworld, hpassed, n, hn, hfailed⟩
  · have ht : t = ⟨copied, [bucket, bucket, bucket, bucket, copied]⟩ := by
      cases t
      cases hworld
      cases hpassed
      rfl
    have hreached : reached := by
      refine ⟨hfree, ?_⟩
      intro n hn
      have hcases : n = 0 ∨ n = 1 ∨ 2 ≤ n := by omega
      rcases hcases with rfl | rfl | h
      · exact h0
      · exact h1
      · have hlate := hanswered (n - 2) (by omega)
        simp only [List.length_cons, List.length_nil] at hlate
        rwa [show 0 + 1 + 1 + (n - 2) = n by omega] at hlate
    rw [bind_ok hcopy, ht] at hstart
    have hdelete := delete_eq fates
      (c := ⟨copied, [bucket, bucket, bucket, bucket, copied]⟩) hkey
    simp only [List.length_cons, List.length_nil, Nat.zero_add, Nat.reduceAdd] at hdelete
    cases h5 : fates 5 with
    | answered =>
      right
      left
      rw [h5] at hdelete
      rw [bind_ok (handle_ok hdelete)] at hstart
      exact ⟨_, hstart, by simp [hcontent, hcopied], rfl, hreached, rfl⟩
    | lost =>
      left
      rw [h5] at hdelete
      obtain ⟨u, hcleanup, hpassed, hu⟩ := cleanup_spec fates
        (c := ⟨copied, [bucket, bucket, bucket, bucket, copied, copied]⟩) hstaged
      rw [bind_error ((handle_error hdelete).trans ((bind_ok hcleanup).trans rfl))] at hstart
      refine ⟨_, _, hstart, ?_, fun h => h.2 rfl⟩
      have hu' : u.world k = some content := by
        rcases hu with hu | hu
        · rw [hu]
          exact hcopied
        · rw [hu, Function.update_of_ne hne]
          exact hcopied
      intro w hw
      rw [hpassed] at hw
      simp only [List.mem_append, List.mem_cons, List.not_mem_nil, or_false] at hw
      rcases hw with ((rfl | rfl | rfl | rfl | rfl | rfl) | rfl) | rfl <;> assumption
    | unanswered =>
      right
      right
      rw [h5] at hdelete
      obtain ⟨u, hcleanup, -, hu⟩ := cleanup_spec fates
        (c := ⟨Function.update copied k none,
          [bucket, bucket, bucket, bucket, copied, copied]⟩) hstaged
      rw [bind_error ((handle_error hdelete).trans ((bind_ok hcleanup).trans rfl))] at hstart
      refine ⟨_, _, hstart, ?_, hreached, rfl⟩
      rcases hu with hu | hu
      · rw [hu]
        exact Function.update_self _ _ _
      · rw [hu, Function.update_of_ne hne]
        exact Function.update_self _ _ _
  · left
    rw [bind_error hcopy] at hstart
    refine ⟨_, _, hstart, ?_, ?_⟩
    · intro w hw
      have hmem : w = bucket ∨ w = copied := by
        rcases List.mem_append.mp hw with hw | hw
        · rcases hpassed w hw with hw | hw | hw
          · exact Or.inl (by simpa using hw)
          · exact Or.inl hw
          · exact Or.inr hw
        · rw [List.mem_singleton.mp hw]
          exact hworld
      rcases hmem with rfl | rfl
      · exact hcontent
      · exact hcopied
    · intro h
      exact hfailed (h.1.2 _ (by simp only [List.length_cons, List.length_nil]; omega))

theorem stageDelete_invalid (hns : validNamespace ns = false) :
    stageDelete etagOf storagePrefix fates key ns ⟨bucket, []⟩ =
      .error (.storage "Invalid storage quarantine namespace.") ⟨bucket, []⟩ := by
  unfold stageDelete
  rw [hns]
  rfl

/-- After a staging that returned, no attempt to restore loses the bytes. -/
theorem restores_keep {t : Client Bucket} (hkey : objectKey storagePrefix key = some k)
    (hstaged : objectKey storagePrefix (stagedKey ns logical) = some s)
    (hne : k ≠ s)
    (hpassed : ∀ w ∈ t.passed, Held k (some s) content w) (ht : Copies k s content t.world)
    (n : ℕ) :
    match restores etagOf storagePrefix fates key (stagedKey ns logical) n t with
    | .error _ _ => False
    | .ok _ u => (∀ w ∈ u.passed ++ [u.world], Held k (some s) content w) ∧
        match restoreStagedDelete etagOf storagePrefix fates key (stagedKey ns logical) u with
        | .error _ _ => True
        | .ok _ v => v.world k = some content ∧ (some s).bind v.world = none := by
  have hinv : ∀ w, Copies k s content w → Held k (some s) content w := fun w hw => hw.held
  have hrun := restores_spec etagOf fates hkey hstaged hne hinv n t
    hpassed ht
  cases hn : restores etagOf storagePrefix fates key (stagedKey ns logical) n t with
  | error e u =>
    rw [hn] at hrun
    exact hrun.2
  | ok a u =>
    rw [hn] at hrun
    refine ⟨passed_snoc hrun.1 (hinv _ hrun.2), ?_⟩
    have hrestore := restore_spec etagOf fates hkey hstaged hne hinv u
      hrun.1 hrun.2
    cases hlast : restoreStagedDelete etagOf storagePrefix fates key (stagedKey ns logical) u with
    | error e v => trivial
    | ok b v =>
      rw [hlast] at hrestore
      exact hrestore.2.2

/-- No bytes are lost unless the request that deletes the original fails after it has taken
effect. -/
theorem losesNothing_iff (hkey : objectKey storagePrefix key = some k)
    (hcontent : bucket k = some content) :
    LosesNothing etagOf storagePrefix fates ns key k content bucket ↔
      ¬ ((validNamespace ns = true ∧ (stagedObjectKey storagePrefix ns key).bind bucket = none ∧
          ∀ n < 5, fates n = .answered) ∧ fates 5 = .unanswered) := by
  unfold LosesNothing
  dsimp only
  cases hns : validNamespace ns with
  | false =>
    rw [stageDelete_invalid hns]
    simp [hcontent]
  | true =>
    obtain ⟨logical, s, hlogical, hstaged, hplace⟩ := stagedObjectKey_eq hns hkey
    have hne := stagedObjectKey_ne hkey hplace
    rw [hplace, Option.bind_some]
    rcases stageDelete_spec etagOf fates hns hkey hlogical hstaged hne
      hcontent with ⟨e, t, hrun, hkept, hnot⟩ | ⟨t, hrun, hkept, hworld, hreached, h5⟩ |
        ⟨e, t, hrun, hgone, hreached, h5⟩
    · rw [hrun]
      refine iff_of_true ⟨?_, ?_⟩ ?_
      · intro w hw
        exact Or.inl (hkept w (List.mem_append_left _ hw))
      · exact hkept _ (List.mem_append_right _ List.mem_cons_self)
      · rintro ⟨⟨-, hreached⟩, h5⟩
        exact hnot ⟨hreached, by simp [h5]⟩
    · rw [hrun]
      refine iff_of_true ?_ (by simp [h5])
      have hstagedCopy : t.world s = some content := by
        rw [hworld, Function.update_of_ne hne.symm, Function.update_self]
      have horiginal : t.world k = none := by rw [hworld, Function.update_self]
      refine restores_keep hkey hstaged hne (fun w hw => Or.inl (hkept w hw)) ⟨?_, ?_, ?_⟩
      · exact Or.inr hstagedCopy
      · intro found hfound
        rw [horiginal] at hfound
        cases hfound
      · intro found hfound
        rw [hstagedCopy] at hfound
        exact (Option.some.inj hfound).symm
    · rw [hrun]
      refine iff_of_false ?_ (not_not_intro ⟨⟨rfl, hreached⟩, h5⟩)
      intro h
      exact Option.some_ne_none _ (h.2.symm.trans hgone)

/-- One object. -/
def oneObject : Bucket := fun k => if k = "devices/7/a.txt" then some [1] else none

theorem losesNothing_iff_answered :
    LosesNothing (fun _ => "") "" (fun _ => .answered) "cleanup" "devices/7/a.txt"
        "devices/7/a.txt" [1] oneObject ↔
      ¬ ((validNamespace "cleanup" = true ∧
          (stagedObjectKey "" "cleanup" "devices/7/a.txt").bind oneObject = none ∧
          ∀ n < 5, (.answered : Fate) = .answered) ∧ (.answered : Fate) = .unanswered) :=
  @losesNothing_iff _ _ _ _ _ (fun _ => .answered) _ _ (by decide +kernel) (by decide +kernel)

/-- The deletion of the original takes effect but fails, and the cleanup deletes the copy. -/
theorem losesNothing_counterexample :
    ¬ ∀ (etagOf : List UInt8 → String) (storagePrefix ns key k : String) (fates : ℕ → Fate)
        (content : List UInt8) (bucket : Bucket), objectKey storagePrefix key = some k →
        bucket k = some content →
        LosesNothing etagOf storagePrefix fates ns key k content bucket := by
  intro h
  have hlost := h (fun _ => "") "" "cleanup" "devices/7/a.txt" "devices/7/a.txt"
    (fun n => if n = 5 then .unanswered else .answered) [1] oneObject (by decide +kernel)
    (by decide +kernel)
  have hrun : ∃ e t, stageDelete (fun _ => "") ""
      (fun n => if n = 5 then .unanswered else .answered) "devices/7/a.txt" "cleanup"
        ⟨oneObject, []⟩ = .error e t ∧
      (t.world "devices/7/a.txt" = none ∧
        t.world ".retention-trash/cleanup/devices/7/a.txt" = none) :=
    ⟨_, _, rfl, by decide +kernel⟩
  obtain ⟨e, t, hrun, hgone, -⟩ := hrun
  unfold LosesNothing at hlost
  rw [hrun] at hlost
  exact Option.some_ne_none _ (hlost.2.symm.trans hgone)

end Staging

end ConfigBackup.S3Storage
