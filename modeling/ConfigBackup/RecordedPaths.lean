import ConfigBackup.DestinationEdits
import ConfigBackup.DestinationPaths
import ConfigBackup.NewestCopies
import ConfigBackup.PosixPaths
import ConfigBackup.Replication
import Mathlib

/-!
The recorded path of a revision. Whoever reads or deletes a copy takes its path apart and
checks it against the destination and the revision, without the device name of the day;
a device segment is recognised because it is its own safe form.
-/

namespace ConfigBackup.RecordedPaths

open Calendar DestinationEdits DestinationPaths Models NewestCopies PosixPaths Replication Text

section Validator

variable (nfkd : String → String)

/-- `f"/{base_path}" if base_path else "/"`. -/
def canonicalBase (basePath : List Char) : List Char :=
  if basePath = [] then ['/'] else '/' :: basePath

/-- `_validate_recorded_revision_path`: the layout and the device segment of a path. -/
def validateRecordedRevisionPath (destination : BackupDestination) (revision : ConfigRevision)
    (deviceId : ℕ) (remotePath errorCode : String) : Except DestinationError (String × String) :=
  let path := remotePath.toList
  let basePath := relativeBase destination.basePath
  let canonical := canonicalBase basePath
  let invalid := path = [] ∨ path.head? ≠ some '/' ∨ path ≠ normpath path ∨
    canonical ≠ normpath canonical ∨ '\\' ∈ path ∨ '\\' ∈ basePath ∨ '\x00' ∈ path ∨
    '\x00' ∈ basePath ∨ (path ++ basePath).any (fun c => decide (c.val < 32))
  let parts := pureParts path
  let front := ['/'] :: (pureParts canonical).drop 1 ++ ["devices".toList]
  let suffix := parts.drop front.length
  let timestamp := (backupCreationTimestamp revision.created).toList
  let uuid := revision.revisionUuid.toList
  if invalid ∨ parts.take front.length ≠ front then
    .error ⟨errorCode, "The recorded FTP revision path is not safe or does not match this revision."⟩
  else
    match suffix with
    | deviceSegment :: layout :: leaf :: rest =>
      if 2 ≤ rest.length then
        .error ⟨errorCode,
          "The recorded FTP revision path is not safe or does not match this revision."⟩
      else if (deviceDirectoryName nfkd (some (String.ofList deviceSegment)) deviceId).toList ≠
          deviceSegment then
        .error ⟨errorCode, "The recorded FTP revision path contains an invalid device directory."⟩
      else if !((layout = "revisions".toList ∧ rest = []) ∨ layout = "backups".toList) then
        .error ⟨errorCode, "The recorded FTP revision path uses an unsupported layout."⟩
      else if !((layout = "revisions".toList ∧ rest = [] ∧ leaf = uuid) ∨
          (layout = "backups".toList ∧ rest = [] ∧
            (leaf = timestamp ∨ leaf = timestamp ++ '-' :: 'r' :: Nat.toDigits 10 revision.pk)) ∨
          (layout = "backups".toList ∧ rest = [uuid] ∧ leaf = timestamp)) then
        .error ⟨errorCode, "The recorded FTP revision path does not match this revision."⟩
      else .ok (String.ofList layout, String.ofList deviceSegment)
    | _ =>
      .error ⟨errorCode,
        "The recorded FTP revision path is not safe or does not match this revision."⟩

end Validator

section Segments

/-- A character of a segment is a printable ASCII character and no separator. -/
theorem ascii_of_safe {c : Char} (h : unsafeSegment c = false) :
    c.val < 128 ∧ isSpace c = false ∧ c ≠ '/' ∧ c ≠ '\\' ∧ 32 ≤ c.val := by
  have hval : c.val = 45 ∨ c.val = 46 ∨ c.val = 95 ∨ (48 ≤ c.val ∧ c.val ≤ 57) ∨
      (65 ≤ c.val ∧ c.val ≤ 90) ∨ (97 ≤ c.val ∧ c.val ≤ 122) := by
    simp only [unsafeSegment, Bool.not_eq_false', Bool.or_eq_true, beq_iff_eq, Char.isAlphanum,
      Char.isAlpha, Char.isUpper, Char.isLower, Char.isDigit, Bool.and_eq_true,
      decide_eq_true_eq] at h
    rcases h with ((((h | h) | h) | rfl) | rfl) | rfl
    · have hlow := h.1
      have hhigh := h.2
      simp_all
    · simp_all
    · simp_all
    · decide
    · decide
    · decide
  have hspace : isSpace c = false := by
    unfold isSpace
    simp only [Bool.or_eq_false_iff, Bool.and_eq_false_iff, beq_eq_false_iff_ne,
      decide_eq_false_iff_not, ne_eq, UInt32.le_iff_toNat_le, ← UInt32.toNat_inj,
      UInt32.reduceToNat] at *
    omega
  simp only [UInt32.le_iff_toNat_le, UInt32.lt_iff_toNat_lt, ← UInt32.toNat_inj,
    UInt32.reduceToNat] at *
  refine ⟨by omega, hspace, ?_, ?_, by omega⟩
  · rintro rfl
    revert hval
    decide
  · rintro rfl
    revert hval
    decide

/-- Between any two dashes stands a character that is no dot. -/
def Separated (s : List Char) : Prop :=
  ∀ front between rest, s = front ++ '-' :: (between ++ '-' :: rest) → ∃ c ∈ between, c ≠ '.'

/-- What the device segment of a path always is, and what is its own device segment. -/
structure SafeSegment (s : List Char) : Prop where
  ne_nil : s ≠ []
  safe : ∀ c ∈ s, unsafeSegment c = false
  head : ∀ c, s.head? = some c → segmentEdge c = false
  last : ∀ c, s.getLast? = some c → segmentEdge c = false
  separated : Separated s
  length : s.length ≤ maxDeviceSegmentLength

theorem Separated.of_infix {s t : List Char} (h : Separated t) (hs : s <:+: t) :
    Separated s := by
  intro front between rest heq
  obtain ⟨left, right, ht⟩ := hs
  refine h (left ++ front) between (rest ++ right) ?_
  rw [← ht, heq]
  simp

theorem substituteRuns_eq_self {p : Char → Bool} {by' : Char} {s : List Char}
    (h : ∀ c ∈ s, p c = false) (inRun : Bool) : substituteRuns p by' inRun s = s := by
  induction s generalizing inRun with
  | nil => rfl
  | cons c rest ih =>
    rw [substituteRuns, h c List.mem_cons_self, if_neg Bool.false_ne_true,
      ih fun d hd => h d (List.mem_cons_of_mem _ hd)]

/-- Without two dashes in a row there is nothing to substitute. -/
theorem substituteRuns_dash {s : List Char} (h : Separated s) :
    substituteRuns (fun c => c == '-') '-' false s = s ∧
      (s.head? ≠ some '-' → substituteRuns (fun c => c == '-') '-' true s = s) := by
  induction s with
  | nil => exact ⟨rfl, fun _ => rfl⟩
  | cons c rest ih =>
    obtain ⟨hfalse, htrue⟩ := ih (h.of_infix (List.suffix_cons _ _).isInfix)
    by_cases hc : c = '-'
    · have hrest : rest.head? ≠ some '-' := by
        intro hhead
        obtain ⟨rest', rfl⟩ := List.head?_eq_some_iff.mp hhead
        obtain ⟨d, hd, -⟩ := h [] [] rest' (by rw [hc]; rfl)
        cases hd
      subst hc
      refine ⟨?_, fun hhead => absurd rfl hhead⟩
      rw [substituteRuns, if_pos (beq_self_eq_true _), if_neg Bool.false_ne_true, htrue hrest]
    · have hne : (c == '-') = false := by simpa using hc
      constructor
      · rw [substituteRuns, hne, if_neg Bool.false_ne_true, hfalse]
      · intro _
        rw [substituteRuns, hne, if_neg Bool.false_ne_true, hfalse]

theorem lstrip_eq_self {p : Char → Bool} {s : List Char}
    (hhead : ∀ c, s.head? = some c → p c = false) : lstrip p s = s := by
  unfold lstrip
  cases s with
  | nil => rfl
  | cons c rest => rw [List.dropWhile_cons_of_neg (by simp [hhead c rfl])]

theorem strip_eq_self {p : Char → Bool} {s : List Char}
    (hhead : ∀ c, s.head? = some c → p c = false)
    (hlast : ∀ c, s.getLast? = some c → p c = false) : strip p s = s := by
  unfold strip rstrip
  rw [lstrip_eq_self hhead, List.rdropWhile_eq_self_iff]
  intro hne
  rw [hlast _ (List.getLast?_eq_some_getLast hne)]
  exact Bool.false_ne_true

theorem head?_of_isPrefix {s t : List Char} (h : s <+: t) (hs : s ≠ []) : s.head? = t.head? := by
  obtain ⟨rest, rfl⟩ := h
  cases s with
  | nil => exact absurd rfl hs
  | cons c s => rfl

theorem head?_strip {p : Char → Bool} {s : List Char} {c : Char}
    (h : (strip p s).head? = some c) : p c = false := by
  have hne : strip p s ≠ [] := by
    intro hnil
    rw [hnil] at h
    cases h
  have hhead : (lstrip p s).head? = some c := by
    rw [← h]
    exact (head?_of_isPrefix (List.rdropWhile_prefix p _) hne).symm
  have hnot := List.head?_dropWhile_not p s
  unfold lstrip at hhead
  rw [hhead] at hnot
  exact hnot

theorem getLast?_rstrip {p : Char → Bool} {s : List Char} {c : Char}
    (h : (rstrip p s).getLast? = some c) : p c = false := by
  have hne : rstrip p s ≠ [] := by
    intro hnil
    rw [hnil] at h
    cases h
  rw [List.getLast?_eq_some_getLast hne] at h
  rw [← Option.some.inj h]
  exact Bool.eq_false_iff.mpr (List.rdropWhile_last_not p _ hne)

theorem mem_of_mem_strip {p : Char → Bool} {s : List Char} {c : Char} (h : c ∈ strip p s) :
    c ∈ s :=
  (List.dropWhile_sublist p).subset ((List.rdropWhile_prefix p _).subset h)

theorem exists_of_strip_ne_nil {p : Char → Bool} {s : List Char} (h : strip p s ≠ []) :
    ∃ c ∈ s, p c = false := by
  cases hstrip : strip p s with
  | nil => exact absurd hstrip h
  | cons c rest => exact ⟨c, mem_of_mem_strip (by rw [hstrip]; exact List.mem_cons_self),
      head?_strip (by rw [hstrip]; rfl)⟩

theorem mem_lstrip {p : Char → Bool} {s : List Char} {c : Char} (hc : c ∈ s) (hp : p c = false) :
    c ∈ lstrip p s := by
  unfold lstrip
  rw [← List.takeWhile_append_dropWhile (p := p) (l := s), List.mem_append] at hc
  rcases hc with hc | hc
  · exact absurd (List.mem_takeWhile_imp hc) (by simp [hp])
  · exact hc

theorem mem_rstrip {p : Char → Bool} {s : List Char} {c : Char} (hc : c ∈ s) (hp : p c = false) :
    c ∈ rstrip p s := by
  have hreverse := mem_lstrip (List.mem_reverse.mpr hc) hp
  unfold lstrip at hreverse
  exact List.mem_reverse.mpr hreverse

theorem mem_strip {p : Char → Bool} {s : List Char} {c : Char} (hc : c ∈ s) (hp : p c = false) :
    c ∈ strip p s := mem_rstrip (mem_lstrip hc hp) hp

theorem strip_ne_nil {p : Char → Bool} {s : List Char} {c : Char} (hc : c ∈ s)
    (hp : p c = false) : strip p s ≠ [] := List.ne_nil_of_mem (mem_strip hc hp)

theorem mem_substituteRuns {p : Char → Bool} {by' : Char} {s : List Char} {inRun : Bool}
    {c : Char} (h : c ∈ substituteRuns p by' inRun s) : c = by' ∨ (c ∈ s ∧ p c = false) := by
  induction s generalizing inRun with
  | nil => cases h
  | cons d rest ih =>
    rw [substituteRuns] at h
    split at h
    · split at h
      · rcases ih h with h | h
        · exact Or.inl h
        · exact Or.inr ⟨List.mem_cons_of_mem _ h.1, h.2⟩
      · rcases List.mem_cons.mp h with h | h
        · exact Or.inl h
        · rcases ih h with h | h
          · exact Or.inl h
          · exact Or.inr ⟨List.mem_cons_of_mem _ h.1, h.2⟩
    · rename_i hd
      rcases List.mem_cons.mp h with rfl | h
      · exact Or.inr ⟨List.mem_cons_self, by simpa using hd⟩
      · rcases ih h with h | h
        · exact Or.inl h
        · exact Or.inr ⟨List.mem_cons_of_mem _ h.1, h.2⟩

/-- Joining pieces that each have a character besides dots separates the dashes. -/
theorem separated_joinWith {parts : List (List Char)} (hdash : ∀ part ∈ parts, '-' ∉ part)
    (hdots : ∀ part ∈ parts, ∃ c ∈ part, c ≠ '.') : Separated (joinWith '-' parts) := by
  intro front between rest heq
  by_cases hmem : '-' ∈ between
  · exact ⟨'-', hmem, by decide⟩
  · have hne : parts ≠ [] := by
      rintro rfl
      have hlength := congrArg List.length heq
      simp [joinWith] at hlength
    have hpiece : between ∈ (joinWith '-' parts).splitOn '-' := by
      rw [heq, List.splitOn_append_cons_self, List.splitOn_append_cons_self,
        List.splitOn_eq_singleton hmem]
      simp
    unfold joinWith at hpiece
    rw [List.splitOn_intercalate '-' hdash hne] at hpiece
    exact hdots between hpiece

/-- The pieces between the dashes of a safe segment all have a character besides dots. -/
theorem SafeSegment.pieces {s : List Char} (h : SafeSegment s) :
    ∀ part ∈ s.splitOn '-', ∃ c ∈ part, c ≠ '.' := by
  intro part hpart
  obtain ⟨front, rest, heq, hfront, hrest⟩ := exists_eq_append_of_mem_splitOn hpart
  rcases hfront with rfl | ⟨front, rfl⟩
  · cases part with
    | nil =>
      rcases hrest with rfl | ⟨rest, rfl⟩
      · exact absurd heq h.ne_nil
      · exact absurd (h.head '-' (by rw [heq]; rfl)) (by decide)
    | cons c part =>
      refine ⟨c, List.mem_cons_self, ?_⟩
      rintro rfl
      exact absurd (h.head '.' (by rw [heq]; rfl)) (by decide)
  · rcases hrest with rfl | ⟨rest, rfl⟩
    · rw [List.append_nil] at heq
      cases hlast : part.getLast? with
      | none =>
        rw [List.getLast?_eq_none_iff.mp hlast, List.append_nil] at heq
        exact absurd (h.last '-' (by rw [heq]; simp)) (by decide)
      | some c =>
        refine ⟨c, List.mem_of_getLast? hlast, ?_⟩
        rintro rfl
        have hs : s.getLast? = some '.' := by
          rw [heq, List.getLast?_append, hlast]
          rfl
        exact absurd (h.last '.' hs) (by decide)
    · exact h.separated front part rest (by rw [heq]; simp)

/-- A safe segment is its own device segment. -/
theorem SafeSegment.deviceDirectoryName_eq {nfkd : String → String} {s : List Char}
    (h : SafeSegment s) (hnfkd : nfkd (String.ofList s) = String.ofList s) (deviceId : ℕ) :
    deviceDirectoryName nfkd (some (String.ofList s)) deviceId = String.ofList s := by
  have hascii : asciiOnly s = s := by
    refine List.filter_eq_self.mpr fun c hc => ?_
    exact decide_eq_true (ascii_of_safe (h.safe c hc)).1
  have hspace : strip isSpace s = s := by
    refine strip_eq_self ?_ ?_
    · intro c hc
      exact (ascii_of_safe (h.safe c (List.mem_of_mem_head? hc))).2.1
    · intro c hc
      exact (ascii_of_safe (h.safe c (List.mem_of_getLast? hc))).2.1
  have hunsafe : substituteRuns unsafeSegment '-' false s = s :=
    substituteRuns_eq_self h.safe false
  have hfilter : (s.splitOn '-').filter (fun part => strip (fun c => c == '.') part != []) =
      s.splitOn '-' := by
    refine List.filter_eq_self.mpr fun part hpart => ?_
    obtain ⟨c, hc, hdot⟩ := h.pieces part hpart
    simpa using strip_ne_nil hc (by simpa using hdot)
  have hjoin : joinWith '-' (s.splitOn '-') = s := List.intercalate_splitOn '-'
  have hend : rstrip segmentEdge s = s := by
    unfold rstrip
    rw [List.rdropWhile_eq_self_iff]
    intro hne
    rw [h.last _ (List.getLast?_eq_some_getLast hne)]
    exact Bool.false_ne_true
  unfold deviceDirectoryName
  dsimp only
  rw [Option.getD_some, hnfkd, String.toList_ofList, hascii, hspace, hunsafe,
    (substituteRuns_dash h.separated).1, strip_eq_self h.head h.last, hfilter, hjoin,
    List.take_of_length_le h.length, hend, if_neg h.ne_nil]

section Fallback

variable (deviceId : ℕ)

theorem toList_device : ("device-" ++ toString deviceId).toList =
    "device-".toList ++ Nat.toDigits 10 deviceId := by
  rw [String.toList_append]
  exact congrArg _ Nat.toList_repr

theorem isDigit_of_mem_toDigits {c : Char} (hc : c ∈ Nat.toDigits 10 deviceId) :
    c.isDigit = true := Nat.isDigit_of_mem_toDigits (by omega) (by omega) hc

theorem length_device : ("device-" ++ toString deviceId).toList.length =
    7 + (Nat.toDigits 10 deviceId).length := by
  rw [toList_device, List.length_append]
  rfl

theorem safe_device : ∀ c ∈ ("device-" ++ toString deviceId).toList, unsafeSegment c = false := by
  intro c hc
  rw [toList_device] at hc
  rcases List.mem_append.mp hc with hc | hc
  · have hall : "device-".toList.all (fun d => !unsafeSegment d) = true := rfl
    simpa using List.all_eq_true.mp hall c hc
  · simp [unsafeSegment, Char.isAlphanum, isDigit_of_mem_toDigits deviceId hc]

theorem head_device : ∀ c, ("device-" ++ toString deviceId).toList.head? = some c →
    segmentEdge c = false := by
  intro c hc
  rw [toList_device] at hc
  cases hc
  decide

theorem last_device : ∀ c, ("device-" ++ toString deviceId).toList.getLast? = some c →
    segmentEdge c = false := by
  intro c hc
  rw [toList_device, List.getLast?_append_of_ne_nil _ Nat.toDigits_ne_nil] at hc
  have hdigit := isDigit_of_mem_toDigits deviceId (List.mem_of_getLast? hc)
  unfold segmentEdge
  rw [Bool.or_eq_false_iff, Bool.or_eq_false_iff]
  refine ⟨⟨?_, ?_⟩, ?_⟩ <;>
  · rw [beq_eq_false_iff_ne]
    rintro rfl
    exact absurd hdigit (by decide)

/-- There is one dash in the fallback. -/
theorem separated_device : Separated ("device-" ++ toString deviceId).toList := by
  intro front between rest heq
  have hnone : (Nat.toDigits 10 deviceId).count '-' = 0 := by
    rw [List.count_eq_zero]
    intro hmem
    exact absurd (isDigit_of_mem_toDigits deviceId hmem) (by decide)
  rw [toList_device] at heq
  have hcount := congrArg (List.count '-') heq
  rw [List.count_append, hnone] at hcount
  simp only [List.count_append, List.count_cons_self] at hcount
  rw [show "device-".toList.count '-' = 1 from rfl] at hcount
  omega

/-- The fallback is safe as far as it fits. -/
theorem safeSegment_device {deviceId : ℕ} (hlength : (Nat.toDigits 10 deviceId).length ≤ 121) :
    SafeSegment ("device-" ++ toString deviceId).toList := by
  have hne : ("device-" ++ toString deviceId).toList ≠ [] := by
    rw [toList_device]
    simp
  refine ⟨hne, safe_device deviceId, head_device deviceId, last_device deviceId,
    separated_device deviceId, ?_⟩
  rw [length_device]
  unfold maxDeviceSegmentLength
  omega

end Fallback

/-- Dropping the pieces of dots keeps the first character. -/
theorem head?_joined {s : List Char} (h : ∀ c, s.head? = some c → segmentEdge c = false) :
    (joinWith '-' ((s.splitOn '-').filter
      (fun part => strip (fun c => c == '.') part != []))).head? = s.head? := by
  cases s with
  | nil => rfl
  | cons c rest =>
    have hc := h c rfl
    have hdash : (c == '-') = false := by
      rw [beq_eq_false_iff_ne]
      rintro rfl
      exact absurd hc (by decide)
    have hdot : (c == '.') = false := by
      rw [beq_eq_false_iff_ne]
      rintro rfl
      exact absurd hc (by decide)
    rw [List.splitOn_cons_eq_if_modifyHead, hdash, if_neg Bool.false_ne_true]
    cases hsplit : rest.splitOn '-' with
    | nil => exact absurd hsplit (List.splitOn_ne_nil _ _)
    | cons first parts =>
      rw [List.modifyHead_cons, List.filter_cons_of_pos]
      · cases (parts.filter (fun part => strip (fun c => c == '.') part != [])) with
        | nil => rw [joinWith, List.intercalate_singleton]; rfl
        | cons second parts => rw [joinWith_cons_cons]; rfl
      · exact bne_iff_ne.mpr (strip_ne_nil List.mem_cons_self hdot)

/-- Every device name that leaves something behind gives a safe segment. -/
theorem safeSegment_or_device (nfkd : String → String) (deviceName : Option String)
    (deviceId : ℕ) : SafeSegment (deviceDirectoryName nfkd deviceName deviceId).toList ∨
      deviceDirectoryName nfkd deviceName deviceId = "device-" ++ toString deviceId := by
  unfold deviceDirectoryName
  extract_lets asciiName safeName stripped joined kept
  split
  · exact Or.inr rfl
  · rename_i hkept
    left
    rw [String.toList_ofList]
    have hstripped : ∀ c ∈ stripped, unsafeSegment c = false := by
      intro c hc
      rcases mem_substituteRuns (mem_of_mem_strip hc) with rfl | ⟨hc, -⟩
      · decide
      · rcases mem_substituteRuns hc with rfl | ⟨-, hc⟩
        · decide
        · exact hc
    have hparts : ∀ part ∈ (stripped.splitOn '-').filter
        (fun part => strip (fun c => c == '.') part != []),
        part ∈ stripped.splitOn '-' ∧ ∃ c ∈ part, c ≠ '.' := by
      intro part hpart
      obtain ⟨hmem, hdots⟩ := List.mem_filter.mp hpart
      obtain ⟨c, hc, hdot⟩ := exists_of_strip_ne_nil (bne_iff_ne.mp hdots)
      exact ⟨hmem, c, hc, by simpa using hdot⟩
    have hfront : kept <+: joined :=
      (List.rdropWhile_prefix _ _).trans (List.take_prefix _ _)
    refine ⟨hkept, ?_, ?_, ?_, ?_, ?_⟩
    · intro c hc
      rcases mem_joinWith (hfront.subset hc) with rfl | ⟨part, hpart, hc⟩
      · decide
      · obtain ⟨left, right, heq, -⟩ := exists_eq_append_of_mem_splitOn (hparts part hpart).1
        exact hstripped c (by rw [heq]; simp [hc])
    · intro c hc
      rw [head?_of_isPrefix hfront hkept, head?_joined fun d hd => head?_strip hd] at hc
      exact head?_strip hc
    · exact fun c hc => getLast?_rstrip hc
    · refine Separated.of_infix (separated_joinWith ?_ ?_) hfront.isInfix
      · exact fun part hpart => not_mem_of_mem_splitOn (hparts part hpart).1
      · exact fun part hpart => (hparts part hpart).2
    · exact (List.rdropWhile_prefix _ _).length_le.trans (List.length_take_le _ _)

/-- The device segment of a path is safe, for every device name. -/
theorem safeSegment_deviceDirectoryName (nfkd : String → String) (deviceName : Option String)
    {deviceId : ℕ} (hid : deviceId < 2 ^ 63) :
    SafeSegment (deviceDirectoryName nfkd deviceName deviceId).toList := by
  rcases safeSegment_or_device nfkd deviceName deviceId with hsafe | hdevice
  · exact hsafe
  · have hdigits : (Nat.toDigits 10 deviceId).length ≤ 20 :=
      (Nat.length_toDigits_le_iff (by omega) (by omega)).mpr (by omega)
    rw [hdevice]
    exact safeSegment_device (by omega)

end Segments

section Shape

variable {nfkd : String → String} {basePath : String} {deviceName : Option String}
  {deviceId revisionId : ℕ} {createdAt : Instant} {uuid : Option String} {path : String}

/-- The segments of a base path, as they are joined. -/
def baseSegments (basePath : String) : List (List Char) :=
  if relativeBase basePath = [] then [] else (relativeBase basePath).splitOn '/'

/-- The last segment of a new copy's path. -/
def leafOf (createdAt : Instant) (revisionId : ℕ) : List Char :=
  (backupCreationTimestamp createdAt).toList ++ '-' :: 'r' :: Nat.toDigits 10 revisionId

theorem mem_timestamp {c : Char} (h : c ∈ (backupCreationTimestamp createdAt).toList) :
    c.isDigit = true ∨ c = '-' ∨ c = '_' := by
  have hdigits : ∀ n : ℕ, c ∈ Nat.toDigits 10 n → c.isDigit = true :=
    fun n hc => Nat.isDigit_of_mem_toDigits (by omega) (by omega) hc
  have htwo : ∀ n : ℕ, c ∈ twoDigits n → c.isDigit = true := by
    intro n hc
    unfold twoDigits at hc
    split at hc
    · rcases List.mem_cons.mp hc with rfl | hc
      · decide
      · exact hdigits n hc
    · exact hdigits n hc
  unfold backupCreationTimestamp at h
  dsimp only at h
  rw [String.toList_ofList] at h
  simp only [List.mem_append, List.mem_cons] at h
  grind

theorem timestamp_ne_nil : (backupCreationTimestamp createdAt).toList ≠ [] := by
  unfold backupCreationTimestamp
  dsimp only
  rw [String.toList_ofList]
  simp

/-- The segments of a new copy's path. -/
def pathSegments (nfkd : String → String) (basePath : String) (deviceName : Option String)
    (deviceId : ℕ) (createdAt : Instant) (revisionId : ℕ) : List (List Char) :=
  baseSegments basePath ++ ["devices".toList, (deviceDirectoryName nfkd deviceName deviceId).toList,
    "backups".toList, leafOf createdAt revisionId]

theorem joinWith_baseSegments : joinWith '/' (baseSegments basePath) = relativeBase basePath := by
  unfold baseSegments
  split
  · rename_i hnil
    rw [hnil, joinWith_nil]
  · exact List.intercalate_splitOn '/'

theorem head?_relativeBase : (relativeBase basePath).head? ≠ some '/' := by
  intro h
  have hslash := head?_strip h
  exact absurd hslash (by decide)

theorem getLast?_relativeBase : (relativeBase basePath).getLast? ≠ some '/' := by
  intro h
  have hslash := getLast?_rstrip h
  exact absurd hslash (by decide)

theorem joinPath_concat (parts : List (List Char)) (last part : List Char) {c : Char}
    (hlast : last.getLast? = some c) (hc : c ≠ '/') (hpart : part.head? ≠ some '/') :
    joinPath (joinWith '/' (parts ++ [last])) part = joinWith '/' (parts ++ [last, part]) := by
  have hend : (joinWith '/' (parts ++ [last])).getLast? = some c := joinWith_concat_last hlast
  rw [joinPath_joinWith, List.append_assoc]
  · rfl
  · intro hnil
    rw [hnil] at hend
    cases hend
  · rw [hend]
    exact fun heq => hc (Option.some.inj heq)
  · exact hpart

theorem head?_ne_slash_of_safe {s : List Char} (h : SafeSegment s) : s.head? ≠ some '/' := by
  intro hhead
  exact (ascii_of_safe (h.safe _ (List.mem_of_mem_head? hhead))).2.2.1 rfl

theorem head?_joinWith {separator : Char} {rest : List (List Char)} {part : List Char}
    {c : Char} (h : part.head? = some c) :
    (joinWith separator (part :: rest)).head? = some c := by
  cases rest with
  | nil => rw [joinWith_singleton, h]
  | cons second rest => rw [joinWith_cons_cons, List.head?_append, h]; rfl

theorem head?_pathSegments :
    (joinWith '/' (pathSegments nfkd basePath deviceName deviceId createdAt revisionId)).head? ≠
      some '/' := by
  unfold pathSegments
  cases hbase : baseSegments basePath with
  | nil =>
    rw [List.nil_append, head?_joinWith (c := 'd') rfl]
    decide
  | cons first parts =>
    have hjoin : joinWith '/' (baseSegments basePath) = relativeBase basePath :=
      joinWith_baseSegments
    have hhead : (relativeBase basePath).head? ≠ some '/' := head?_relativeBase
    rw [hbase] at hjoin
    rw [← hjoin] at hhead
    cases first with
    | nil =>
      cases parts with
      | nil =>
        unfold baseSegments at hbase
        rw [if_pos (hjoin.symm.trans (joinWith_singleton _ _))] at hbase
        cases hbase
      | cons second parts =>
        rw [joinWith_cons_cons] at hhead
        exact absurd rfl hhead
    | cons c first =>
      rw [head?_joinWith (c := c) rfl] at hhead
      rwa [List.cons_append, head?_joinWith (c := c) rfl]

/-- A new copy's path joins its segments. -/
theorem toList_path (hid : deviceId < 2 ^ 63)
    (h : ftpRevisionDestinationPath nfkd basePath deviceName deviceId createdAt (some revisionId)
      uuid = some path) :
    path.toList =
      '/' :: joinWith '/' (pathSegments nfkd basePath deviceName deviceId createdAt revisionId) := by
  have hsegment := safeSegment_deviceDirectoryName nfkd deviceName hid
  unfold ftpRevisionDestinationPath at h
  dsimp only at h
  split at h
  · cases h
  · have hfirst : joinPath (relativeBase basePath) "devices".toList =
        joinWith '/' (baseSegments basePath ++ ["devices".toList]) := by
      rw [← joinWith_baseSegments]
      refine joinPath_joinWith ?_ ?_ (by decide)
      · intro hnil
        rw [joinWith_baseSegments] at hnil
        unfold baseSegments
        rw [if_pos hnil]
      · rw [joinWith_baseSegments]
        exact getLast?_relativeBase
    obtain ⟨c, hlast⟩ : ∃ c,
        (deviceDirectoryName nfkd deviceName deviceId).toList.getLast? = some c :=
      ⟨_, List.getLast?_eq_some_getLast hsegment.ne_nil⟩
    have hc : c ≠ '/' :=
      (ascii_of_safe (hsegment.safe c (List.mem_of_getLast? hlast))).2.2.1
    have htimestamp : (backupCreationTimestamp createdAt).toList.head? ≠ some '/' := by
      intro hhead
      rcases mem_timestamp (List.mem_of_mem_head? hhead) with hdigit | heq | heq
      · exact absurd hdigit (by decide)
      · exact absurd heq (by decide)
      · exact absurd heq (by decide)
    rw [← Option.some.inj h]
    unfold joinPaths
    simp only [List.foldl_cons, List.foldl_nil]
    have hsecond := joinPath_concat (baseSegments basePath) "devices".toList
      (deviceDirectoryName nfkd deviceName deviceId).toList (c := 's') rfl (by decide)
      (head?_ne_slash_of_safe hsegment)
    have hthird := joinPath_concat (baseSegments basePath ++ ["devices".toList])
      (deviceDirectoryName nfkd deviceName deviceId).toList "backups".toList hlast hc (by decide)
    have hfourth := joinPath_concat
      (baseSegments basePath ++
        ["devices".toList, (deviceDirectoryName nfkd deviceName deviceId).toList])
      "backups".toList (backupCreationTimestamp createdAt).toList (c := 's') rfl (by decide)
      htimestamp
    simp only [List.append_assoc, List.cons_append, List.nil_append] at hthird hfourth
    rw [hfirst, hsecond, hthird, hfourth]
    have hshape : joinWith '/' (baseSegments basePath ++ ["devices".toList,
          (deviceDirectoryName nfkd deviceName deviceId).toList, "backups".toList,
          (backupCreationTimestamp createdAt).toList]) ++ '-' :: 'r' :: Nat.toDigits 10 revisionId =
        joinWith '/' (pathSegments nfkd basePath deviceName deviceId createdAt revisionId) := by
      have hfront : ∀ last : List Char, baseSegments basePath ++ ["devices".toList,
          (deviceDirectoryName nfkd deviceName deviceId).toList, "backups".toList, last] =
          (baseSegments basePath ++ ["devices".toList,
            (deviceDirectoryName nfkd deviceName deviceId).toList, "backups".toList]) ++ [last] := by
        intro last
        simp
      unfold pathSegments leafOf
      rw [hfront, hfront, joinWith_concat (by simp), joinWith_concat (by simp)]
      simp
    unfold absolutePath
    rw [String.toList_ofList, hshape, lstrip_eq_self]
    intro d hd
    rw [beq_eq_false_iff_ne]
    rintro rfl
    exact head?_pathSegments hd

/-- A base path whose segments are neither empty nor dots, without control characters. -/
def PlainBase (basePath : String) : Prop :=
  (∀ segment ∈ baseSegments basePath, segment ≠ [] ∧ segment ≠ ['.']) ∧
    ∀ c ∈ basePath.toList, 32 ≤ c.val

theorem isComponent_of_safe {s : List Char} (h : SafeSegment s) : IsComponent s := by
  refine ⟨h.ne_nil, ?_, ?_⟩
  · rintro rfl
    exact absurd (h.head '.' rfl) (by decide)
  · intro hmem
    exact (ascii_of_safe (h.safe _ hmem)).2.2.1 rfl

theorem mem_leafOf {c : Char} (h : c ∈ leafOf createdAt revisionId) :
    c.isDigit = true ∨ c = '-' ∨ c = '_' ∨ c = 'r' := by
  unfold leafOf at h
  rw [List.mem_append, List.mem_cons, List.mem_cons] at h
  rcases h with h | h | h | h
  · rcases mem_timestamp h with h | h | h
    · exact Or.inl h
    · exact Or.inr (Or.inl h)
    · exact Or.inr (Or.inr (Or.inl h))
  · exact Or.inr (Or.inl h)
  · exact Or.inr (Or.inr (Or.inr h))
  · exact Or.inl (Nat.isDigit_of_mem_toDigits (by omega) (by omega) h)

theorem isComponent_leafOf : IsComponent (leafOf createdAt revisionId) := by
  refine ⟨?_, ?_, ?_⟩
  · unfold leafOf
    simp
  · intro heq
    have hr : 'r' ∈ leafOf createdAt revisionId := by
      unfold leafOf
      simp
    rw [heq] at hr
    revert hr
    decide
  · intro hmem
    rcases mem_leafOf hmem with h | h | h | h <;> revert h <;> decide

theorem mem_splitOn_of_mem_lstrip {s piece : List Char}
    (h : piece ∈ (lstrip (fun c => c == '/') s).splitOn '/') : piece ∈ s.splitOn '/' := by
  induction s with
  | nil => exact h
  | cons c s ih =>
    by_cases hc : c = '/'
    · have hsplit := List.splitOn_append_cons_self (a := '/') [] s
      rw [List.nil_append] at hsplit
      rw [hc, hsplit]
      refine List.mem_append_right _ (ih ?_)
      rwa [hc] at h
    · unfold lstrip at h
      rwa [List.dropWhile_cons_of_neg (by simpa using hc)] at h

theorem mem_splitOn_of_mem_rstrip {s piece : List Char}
    (h : piece ∈ (rstrip (fun c => c == '/') s).splitOn '/') : piece ∈ s.splitOn '/' := by
  induction s using List.reverseRecOn with
  | nil => exact h
  | append_singleton s c ih =>
    by_cases hc : c = '/'
    · rw [hc, List.splitOn_append_cons_self]
      refine List.mem_append_left _ (ih ?_)
      unfold rstrip at h ⊢
      rwa [List.rdropWhile_concat_pos _ _ _ (by simpa using hc)] at h
    · unfold rstrip at h
      rwa [List.rdropWhile_concat_neg _ _ _ (by simpa using hc)] at h

/-- Stripping other characters in front keeps a piece that does not start with one. -/
theorem mem_splitOn_lstrip {p : Char → Bool} {s piece : List Char} {c : Char}
    (hslash : p '/' = false) (hhead : piece.head? = some c) (hc : p c = false)
    (h : piece ∈ s.splitOn '/') : piece ∈ (lstrip p s).splitOn '/' := by
  induction s with
  | nil => exact h
  | cons d s ih =>
    unfold lstrip at ih ⊢
    by_cases hd : p d = true
    · rw [List.dropWhile_cons_of_pos hd]
      refine ih ?_
      have hne : (d == '/') = false := by
        rw [beq_eq_false_iff_ne]
        rintro rfl
        exact absurd hd (by simp [hslash])
      rw [List.splitOn_cons_eq_if_modifyHead, hne, if_neg Bool.false_ne_true] at h
      cases hsplit : s.splitOn '/' with
      | nil => exact absurd hsplit (List.splitOn_ne_nil _ _)
      | cons first parts =>
        rw [hsplit, List.modifyHead_cons] at h
        rcases List.mem_cons.mp h with rfl | h
        · rw [Option.some.inj hhead] at hd
          exact absurd hd (by simp [hc])
        · exact List.mem_cons_of_mem _ h
    · rwa [List.dropWhile_cons_of_neg hd]

theorem mem_splitOn_rstrip {p : Char → Bool} {s piece : List Char} {c : Char}
    (hslash : p '/' = false) (hlast : piece.getLast? = some c) (hc : p c = false)
    (h : piece ∈ s.splitOn '/') : piece ∈ (rstrip p s).splitOn '/' := by
  induction s using List.reverseRecOn with
  | nil => exact h
  | append_singleton s d ih =>
    unfold rstrip at ih ⊢
    by_cases hd : p d = true
    · rw [List.rdropWhile_concat_pos _ _ _ hd]
      refine ih ?_
      have hpiece := not_mem_of_mem_splitOn h
      obtain ⟨front, rest, heq, hfront, hrest⟩ := exists_eq_append_of_mem_splitOn h
      have hend : (s ++ [d]).getLast? = some d := List.getLast?_concat
      rcases hrest with rfl | ⟨rest, rfl⟩
      · rw [heq, List.append_nil, List.getLast?_append, hlast] at hend
        rw [← Option.some.inj hend] at hd
        exact absurd hd (by simp [hc])
      · rcases List.eq_nil_or_concat rest with rfl | ⟨rest, x, rfl⟩
        · rw [heq, List.getLast?_concat] at hend
          rw [← Option.some.inj hend] at hd
          exact absurd hd (by simp [hslash])
        · have hs : s = front ++ piece ++ '/' :: rest := by
            have hconcat : s ++ [d] = (front ++ piece ++ '/' :: rest) ++ [x] := by
              rw [heq]
              simp
            exact (List.append_inj' hconcat rfl).1
          rw [hs]
          exact mem_splitOn_of_eq_append hpiece hfront (Or.inr ⟨rest, rfl⟩)
    · rwa [List.rdropWhile_concat_neg _ _ _ hd]

theorem leafOf_ne_timestamp {createdAt' : Instant} :
    leafOf createdAt revisionId ≠ (backupCreationTimestamp createdAt').toList := by
  intro heq
  have hr : 'r' ∈ leafOf createdAt revisionId := by
    unfold leafOf
    simp
  rw [heq] at hr
  rcases mem_timestamp hr with h | h | h <;> revert h <;> decide

theorem leafOf_inj {createdAt' : Instant} {revisionId' : ℕ}
    (h : leafOf createdAt revisionId = leafOf createdAt' revisionId') :
    revisionId = revisionId' := by
  unfold leafOf at h
  rw [List.append_cons, List.append_cons (backupCreationTimestamp createdAt').toList] at h
  exact toDigits_suffix_inj rfl rfl h

/-- An admitted base path has no parent segments and no backslash. -/
theorem not_mem_of_validBasePath (h : validBasePath basePath = true) :
    ['.', '.'] ∉ baseSegments basePath ∧ '\\' ∉ relativeBase basePath := by
  unfold validBasePath at h
  simp only [Bool.and_eq_true, bne_iff_ne, Bool.not_eq_true', List.contains_eq_mem,
    decide_eq_false_iff_not, List.all_eq_true] at h
  obtain ⟨⟨⟨⟨⟨-, -⟩, hbackslash⟩, -⟩, -⟩, hparents⟩ := h
  have hmap : (strip isSpace basePath.toList).map (fun c => if c = '\\' then '/' else c) =
      strip isSpace basePath.toList := by
    refine (List.map_congr_left fun c hc => if_neg ?_).trans (List.map_id _)
    rintro rfl
    exact hbackslash hc
  rw [hmap] at hparents
  refine ⟨?_, fun hmem => hbackslash (mem_strip (mem_of_mem_strip hmem) (by decide))⟩
  intro hmem
  have hsplit : ['.', '.'] ∈ (relativeBase basePath).splitOn '/' := by
    unfold baseSegments at hmem
    split at hmem
    · cases hmem
    · exact hmem
  have hraw := mem_splitOn_of_mem_lstrip (mem_splitOn_of_mem_rstrip hsplit)
  have hstripped := mem_splitOn_rstrip (p := isSpace) (c := '.') (by decide) rfl (by decide)
    (mem_splitOn_lstrip (p := isSpace) (c := '.') (by decide) rfl (by decide) hraw)
  exact hparents _ hstripped rfl

theorem isComponent_of_plain (h : PlainBase basePath) :
    ∀ segment ∈ baseSegments basePath, IsComponent segment := by
  intro segment hsegment
  refine ⟨(h.1 segment hsegment).1, (h.1 segment hsegment).2, ?_⟩
  unfold baseSegments at hsegment
  split at hsegment
  · cases hsegment
  · exact not_mem_of_mem_splitOn hsegment

theorem components_relativeBase (h : PlainBase basePath) :
    components (relativeBase basePath) = baseSegments basePath := by
  rw [← joinWith_baseSegments, components_joinWith (isComponent_of_plain h)]

/-- On a plain base every segment of a new copy's path is a component and no parent. -/
theorem isComponent_pathSegments (h : PlainBase basePath) (hid : deviceId < 2 ^ 63) :
    ∀ segment ∈ pathSegments nfkd basePath deviceName deviceId createdAt revisionId,
      IsComponent segment := by
  intro segment hsegment
  unfold pathSegments at hsegment
  simp only [List.mem_append, List.mem_cons, List.not_mem_nil, or_false] at hsegment
  have hnames : IsComponent "devices".toList ∧ IsComponent "backups".toList := by
    unfold IsComponent
    decide
  rcases hsegment with hbase | heq | heq | heq | heq
  · exact isComponent_of_plain h segment hbase
  · rw [heq]
    exact hnames.1
  · rw [heq]
    exact isComponent_of_safe (safeSegment_deviceDirectoryName nfkd deviceName hid)
  · rw [heq]
    exact hnames.2
  · rw [heq]
    exact isComponent_leafOf

theorem not_mem_pathSegments (h : validBasePath basePath = true) (hid : deviceId < 2 ^ 63) :
    ['.', '.'] ∉ pathSegments nfkd basePath deviceName deviceId createdAt revisionId := by
  intro hmem
  unfold pathSegments at hmem
  simp only [List.mem_append, List.mem_cons, List.not_mem_nil, or_false] at hmem
  rcases hmem with hbase | heq | heq | heq | heq
  · exact (not_mem_of_validBasePath h).1 hbase
  · revert heq
    decide
  · have hsafe := safeSegment_deviceDirectoryName nfkd deviceName hid
    exact absurd (hsafe.head '.' (by rw [← heq]; rfl)) (by decide)
  · revert heq
    decide
  · have hr : 'r' ∈ leafOf createdAt revisionId := by
      unfold leafOf
      simp
    rw [← heq] at hr
    revert hr
    decide

/-- The characters of a new copy's path, on a plain base. -/
theorem mem_path (h : validBasePath basePath = true) (hplain : PlainBase basePath)
    (hid : deviceId < 2 ^ 63) {c : Char}
    (hc : c ∈ joinWith '/' (pathSegments nfkd basePath deviceName deviceId createdAt revisionId)) :
    c ≠ '\\' ∧ 32 ≤ c.val := by
  have hsafe : ∀ d, unsafeSegment d = false → d ≠ '\\' ∧ 32 ≤ d.val := by
    intro d hd
    obtain ⟨-, -, -, hbackslash, hprintable⟩ := ascii_of_safe hd
    exact ⟨hbackslash, hprintable⟩
  have hnames : "devices".toList.all (fun d => !unsafeSegment d) = true ∧
      "backups".toList.all (fun d => !unsafeSegment d) = true := ⟨rfl, rfl⟩
  rcases mem_joinWith hc with rfl | ⟨segment, hsegment, hc⟩
  · decide
  · unfold pathSegments at hsegment
    simp only [List.mem_append, List.mem_cons, List.not_mem_nil, or_false] at hsegment
    rcases hsegment with hbase | heq | heq | heq | heq
    · have hrel : c ∈ relativeBase basePath := by
        unfold baseSegments at hbase
        split at hbase
        · cases hbase
        · obtain ⟨front, rest, heq, -⟩ := exists_eq_append_of_mem_splitOn hbase
          rw [heq]
          simp [hc]
      refine ⟨?_, hplain.2 c (mem_of_mem_strip hrel)⟩
      rintro rfl
      exact (not_mem_of_validBasePath h).2 hrel
    · rw [heq] at hc
      exact hsafe c (by simpa using List.all_eq_true.mp hnames.1 c hc)
    · rw [heq] at hc
      exact hsafe c ((safeSegment_deviceDirectoryName nfkd deviceName hid).safe c hc)
    · rw [heq] at hc
      exact hsafe c (by simpa using List.all_eq_true.mp hnames.2 c hc)
    · rw [heq] at hc
      refine hsafe c ?_
      rcases mem_leafOf hc with hdigit | rfl | rfl | rfl
      · simp [unsafeSegment, Char.isAlphanum, hdigit]
      · decide
      · decide
      · decide

end Shape

section Acceptance

variable {nfkd : String → String} {destination : BackupDestination} {target : BackupTarget}
  {revision other : ConfigRevision} {path : String}

/-- The path that a new copy of a revision is given. -/
def pathOf (nfkd : String → String) (destination : BackupDestination) (target : BackupTarget)
    (revision : ConfigRevision) : Option String :=
  ftpRevisionDestinationPath nfkd destination.basePath target.deviceName target.deviceId
    revision.created (some revision.pk) none

/-- On a plain base, what the validator of any revision makes of a new copy's path. -/
theorem validate_eq (hbase : validBasePath destination.basePath = true)
    (hplain : PlainBase destination.basePath) (hid : target.deviceId < 2 ^ 63)
    (hpath : pathOf nfkd destination target revision = some path) (deviceId : ℕ)
    (errorCode : String) (found : String × String) :
    validateRecordedRevisionPath nfkd destination other deviceId path errorCode = .ok found ↔
      (deviceDirectoryName nfkd (some (deviceDirectoryName nfkd target.deviceName target.deviceId))
          deviceId = deviceDirectoryName nfkd target.deviceName target.deviceId) ∧
        (leafOf revision.created revision.pk = (backupCreationTimestamp other.created).toList ∨
          leafOf revision.created revision.pk = leafOf other.created other.pk) ∧
        found = ("backups", deviceDirectoryName nfkd target.deviceName target.deviceId) := by
  have hlist := toList_path hid hpath
  have hcomponents : components (joinWith '/' (pathSegments nfkd destination.basePath
      target.deviceName target.deviceId revision.created revision.pk)) =
        pathSegments nfkd destination.basePath target.deviceName target.deviceId
          revision.created revision.pk :=
    components_joinWith (isComponent_pathSegments hplain hid)
  have hhead : (joinWith '/' (pathSegments nfkd destination.basePath target.deviceName
      target.deviceId revision.created revision.pk)).head? ≠ some '/' := head?_pathSegments
  have hnorm : normpath path.toList = path.toList := by
    rw [hlist, normpath_cons hhead, hcomponents]
    unfold joinWith
    rw [List.splitOn_intercalate '/' (fun part hpart => (isComponent_pathSegments hplain hid part
      hpart).2.2) (by unfold pathSegments; simp)]
    exact not_mem_pathSegments hbase hid
  have hcanonical : canonicalBase (relativeBase destination.basePath) =
      '/' :: relativeBase destination.basePath := by
    unfold canonicalBase
    split
    · rename_i hnil
      rw [hnil]
    · rfl
  have hbaseNorm : normpath (canonicalBase (relativeBase destination.basePath)) =
      canonicalBase (relativeBase destination.basePath) := by
    rw [hcanonical, normpath_cons head?_relativeBase, components_relativeBase hplain,
      joinWith_baseSegments]
    intro hmem
    by_cases hnil : relativeBase destination.basePath = []
    · rw [hnil, List.splitOn_nil, List.mem_singleton] at hmem
      cases hmem
    · refine (not_mem_of_validBasePath hbase).1 ?_
      unfold baseSegments
      rwa [if_neg hnil]
  have hparts : pureParts path.toList = ['/'] :: pathSegments nfkd destination.basePath
      target.deviceName target.deviceId revision.created revision.pk := by
    rw [hlist, pureParts_cons hhead, hcomponents]
  have hfront : ['/'] :: (pureParts (canonicalBase (relativeBase destination.basePath))).drop 1 ++
      ["devices".toList] = ['/'] :: (baseSegments destination.basePath ++ ["devices".toList]) := by
    rw [hcanonical, pureParts_cons head?_relativeBase, components_relativeBase hplain]
    rfl
  have hshape : pathSegments nfkd destination.basePath target.deviceName target.deviceId
      revision.created revision.pk = (baseSegments destination.basePath ++ ["devices".toList]) ++
        [(deviceDirectoryName nfkd target.deviceName target.deviceId).toList, "backups".toList,
          leafOf revision.created revision.pk] := by
    unfold pathSegments
    simp
  have hvalid : ¬ ((path.toList = [] ∨ path.toList.head? ≠ some '/' ∨
      path.toList ≠ normpath path.toList ∨
      canonicalBase (relativeBase destination.basePath) ≠
        normpath (canonicalBase (relativeBase destination.basePath)) ∨
      '\\' ∈ path.toList ∨ '\\' ∈ relativeBase destination.basePath ∨ '\x00' ∈ path.toList ∨
      '\x00' ∈ relativeBase destination.basePath ∨
      (path.toList ++ relativeBase destination.basePath).any (fun c => decide (c.val < 32))) ∨
      (['/'] :: pathSegments nfkd destination.basePath target.deviceName target.deviceId
        revision.created revision.pk).take (baseSegments destination.basePath ++
          ["devices".toList]).length.succ ≠
        ['/'] :: (baseSegments destination.basePath ++ ["devices".toList])) := by
    have hchars : ∀ c ∈ path.toList, c ≠ '\\' ∧ 32 ≤ c.val := by
      intro c hc
      rw [hlist] at hc
      rcases List.mem_cons.mp hc with rfl | hc
      · decide
      · exact mem_path hbase hplain hid hc
    have hbaseChars : ∀ c ∈ relativeBase destination.basePath, 32 ≤ c.val :=
      fun c hc => hplain.2 c (mem_of_mem_strip hc)
    rintro ((h | h | h | h | h | h | h | h | h) | h)
    · rw [hlist] at h
      cases h
    · rw [hlist] at h
      exact h rfl
    · exact h hnorm.symm
    · exact h hbaseNorm.symm
    · exact (hchars _ h).1 rfl
    · exact (not_mem_of_validBasePath hbase).2 h
    · exact absurd (hchars _ h).2 (by decide)
    · exact absurd (hbaseChars _ h) (by decide)
    · obtain ⟨c, hc, hsmall⟩ := List.any_eq_true.mp h
      have hprintable : 32 ≤ c.val := by
        rcases List.mem_append.mp hc with hc | hc
        · exact (hchars c hc).2
        · exact hbaseChars c hc
      exact absurd (of_decide_eq_true hsmall) (UInt32.not_lt.mpr hprintable)
    · rw [List.take_succ_cons, hshape, List.take_left] at h
      exact h rfl
  unfold validateRecordedRevisionPath
  dsimp only
  rw [hfront, hparts, List.length_cons, if_neg hvalid, List.drop_succ_cons, hshape,
    List.drop_left]
  dsimp only
  rw [if_neg (by simp), String.ofList_toList]
  have hleaf : (backupCreationTimestamp other.created).toList ++
      '-' :: 'r' :: Nat.toDigits 10 other.pk = leafOf other.created other.pk := rfl
  rw [hleaf]
  by_cases hdevice : deviceDirectoryName nfkd
      (some (deviceDirectoryName nfkd target.deviceName target.deviceId)) deviceId =
        deviceDirectoryName nfkd target.deviceName target.deviceId
  · rw [if_neg (not_not_intro (congrArg String.toList hdevice)), if_neg (by simp)]
    by_cases hown : leafOf revision.created revision.pk =
          (backupCreationTimestamp other.created).toList ∨
        leafOf revision.created revision.pk = leafOf other.created other.pk
    · rw [if_neg (by simp [hown])]
      constructor
      · intro h
        cases h
        exact ⟨hdevice, hown, rfl⟩
      · rintro ⟨-, -, rfl⟩
        rfl
    · rw [if_pos (by simp [hown])]
      refine iff_of_false ?_ fun h => hown h.2.1
      intro h
      cases h
  · rw [if_pos fun heq => hdevice (String.toList_inj.mp heq)]
    refine iff_of_false ?_ fun h => hdevice h.1
    intro h
    cases h

/-- A path is only accepted on a plain base. -/
theorem plain_of_ok {deviceId : ℕ} {errorCode : String} {found : String × String}
    (hbase : validBasePath destination.basePath = true)
    (h : validateRecordedRevisionPath nfkd destination other deviceId path errorCode =
      .ok found) : PlainBase destination.basePath := by
  unfold validateRecordedRevisionPath at h
  dsimp only at h
  split at h
  · cases h
  · rename_i hvalid
    simp only [not_or, ne_eq, not_not] at hvalid
    obtain ⟨⟨-, -, -, hcanonical, -, -, -, -, hprintable⟩, -⟩ := hvalid
    constructor
    · intro segment hsegment
      unfold baseSegments at hsegment
      split at hsegment
      · cases hsegment
      · rename_i hne
        unfold canonicalBase at hcanonical
        rw [if_neg hne, normpath_cons head?_relativeBase ?_] at hcanonical
        · have hrel := (List.cons.inj hcanonical).2
          have hparts : components (relativeBase destination.basePath) ≠ [] := by
            intro hnil
            rw [hnil, joinWith_nil] at hrel
            exact hne hrel
          have hsplit : (relativeBase destination.basePath).splitOn '/' =
              components (relativeBase destination.basePath) := by
            conv_lhs => rw [hrel]
            exact List.splitOn_intercalate '/' (fun part hpart => (isComponent_of_mem hpart).2.2)
              hparts
          rw [hsplit] at hsegment
          exact ⟨(isComponent_of_mem hsegment).1, (isComponent_of_mem hsegment).2.1⟩
        · have hparents := (not_mem_of_validBasePath hbase).1
          unfold baseSegments at hparents
          rwa [if_neg hne] at hparents
    · intro c hc
      by_cases hslash : c = '/'
      · rw [hslash]
        decide
      · have hrel : c ∈ relativeBase destination.basePath :=
          mem_strip hc (by simpa using hslash)
        by_contra hsmall
        refine hprintable (List.any_eq_true.mpr ⟨c, List.mem_append_right _ hrel, ?_⟩)
        exact decide_eq_true (UInt32.not_le.mp hsmall)

/-- A path is accepted as its revision's, and neither it nor another revision's path is
accepted as the other's. -/
structure BelongsTo (nfkd : String → String) (destination : BackupDestination)
    (target : BackupTarget) (revision : ConfigRevision) (errorCode path : String) : Prop where
  accepted : validateRecordedRevisionPath nfkd destination revision target.deviceId path errorCode =
    .ok ("backups", deviceDirectoryName nfkd target.deviceName target.deviceId)
  own : ∀ (otherTarget : BackupTarget) (other : ConfigRevision) (otherPath : String),
    otherTarget.deviceId < 2 ^ 63 → other.pk ≠ revision.pk →
    pathOf nfkd destination otherTarget other = some otherPath → otherPath ≠ path ∧
      (∀ found, validateRecordedRevisionPath nfkd destination other otherTarget.deviceId path
        errorCode ≠ .ok found) ∧
      ∀ found, validateRecordedRevisionPath nfkd destination revision target.deviceId otherPath
        errorCode ≠ .ok found

/-- A new copy's path is accepted as the path of its own revision only, exactly when the
base path is plain. -/
theorem belongsTo_iff (hnfkd : ∀ s : String, (∀ c ∈ s.toList, c.val < 128) → nfkd s = s)
    (hbase : validBasePath destination.basePath = true) (hid : target.deviceId < 2 ^ 63)
    (hpath : pathOf nfkd destination target revision = some path) (errorCode : String) :
    BelongsTo nfkd destination target revision errorCode path ↔
      PlainBase destination.basePath := by
  constructor
  · exact fun h => plain_of_ok hbase h.accepted
  · intro hplain
    have hforeign : ∀ {otherTarget : BackupTarget} {first second : ConfigRevision}
        {firstPath : String} {deviceId : ℕ} {found : String × String},
        otherTarget.deviceId < 2 ^ 63 → second.pk ≠ first.pk →
        pathOf nfkd destination otherTarget first = some firstPath →
        validateRecordedRevisionPath nfkd destination second deviceId firstPath errorCode ≠
          .ok found := by
      intro otherTarget first second firstPath deviceId found hother hne hfirst hok
      obtain ⟨-, hleaf, -⟩ := (validate_eq hbase hplain hother hfirst deviceId errorCode
        found).mp hok
      rcases hleaf with hleaf | hleaf
      · exact leafOf_ne_timestamp hleaf
      · exact hne (leafOf_inj hleaf).symm
    refine ⟨?_, ?_⟩
    · have hsegment := safeSegment_deviceDirectoryName nfkd target.deviceName hid
      have hascii : nfkd (String.ofList
          (deviceDirectoryName nfkd target.deviceName target.deviceId).toList) = String.ofList
            (deviceDirectoryName nfkd target.deviceName target.deviceId).toList := by
        refine hnfkd _ fun c hc => ?_
        rw [String.toList_ofList] at hc
        exact (ascii_of_safe (hsegment.safe c hc)).1
      have hidentity := hsegment.deviceDirectoryName_eq hascii target.deviceId
      rw [String.ofList_toList] at hidentity
      exact (validate_eq hbase hplain hid hpath target.deviceId errorCode _).mpr
        ⟨hidentity, Or.inr rfl, rfl⟩
    · intro otherTarget other otherPath hother hne hotherPath
      refine ⟨?_, fun found => hforeign hid hne hpath, fun found =>
        hforeign hother (Ne.symm hne) hotherPath⟩
      rintro rfl
      exact hne (ftpRevisionDestinationPath_inj hotherPath hpath)

theorem belongsTo_iff_router :
    ∃ path, pathOf id exampleDestination exampleTarget (exampleRevision 1 0 none) = some path ∧
      BelongsTo id exampleDestination exampleTarget (exampleRevision 1 0 none)
        "REPLICATION_PATH_INVALID" path := by
  have hprintable : "backups".toList.all (fun c => decide (32 ≤ c.val)) = true := rfl
  exact ⟨_, rfl, (belongsTo_iff (fun _ _ => rfl) (by decide +kernel) (by decide +kernel) rfl _).mpr
    ⟨by decide +kernel, fun c hc => of_decide_eq_true (List.all_eq_true.mp hprintable c hc)⟩⟩

/-- A doubled slash in the base path is admitted, and no path below it is accepted. -/
theorem belongsTo_counterexample :
    ¬ ∀ (nfkd : String → String) (destination : BackupDestination) (target : BackupTarget)
        (revision : ConfigRevision) (path errorCode : String),
        (∀ s : String, (∀ c ∈ s.toList, c.val < 128) → nfkd s = s) →
        validBasePath destination.basePath = true → target.deviceId < 2 ^ 63 →
        pathOf nfkd destination target revision = some path →
        BelongsTo nfkd destination target revision errorCode path := by
  intro h
  have hbelongs := h id { exampleDestination with basePath := "backups//netbox" } exampleTarget
    (exampleRevision 1 0 none) _ "REPLICATION_PATH_INVALID" (fun _ _ => rfl) (by decide +kernel)
    (by decide +kernel) rfl
  have hplain := plain_of_ok (by decide +kernel) hbelongs.accepted
  exact absurd (hplain.1 [] (by decide +kernel)).1 (by decide)

end Acceptance

end ConfigBackup.RecordedPaths
