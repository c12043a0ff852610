import ConfigBackup.Calendar
import ConfigBackup.Text

/-!
Remote directories and file stems of a revision. The device segment is a
readable, traversal-safe form of the device name; Unicode normalisation is the
parameter `nfkd`. New copies live in a leaf that ends in the revision's key,
historical ones in a leaf named by its UUID or by its creation time alone.
-/

namespace ConfigBackup.DestinationPaths

open Calendar Text

/-- Characters outside `[A-Za-z0-9._-]`. -/
def unsafeSegment (c : Char) : Bool := !(c.isAlphanum || c == '.' || c == '_' || c == '-')

/-- The characters of `strip("._-")`. -/
def segmentEdge (c : Char) : Bool := c == '.' || c == '_' || c == '-'

def maxDeviceSegmentLength : ℕ := 128

def maxBackupDeviceSegmentLength : ℕ := 96

variable (nfkd : String → String)

def deviceDirectoryName (deviceName : Option String) (deviceId : ℕ) : String :=
  let asciiName := asciiOnly (nfkd (deviceName.getD "")).toList
  let safeName := substituteRuns unsafeSegment '-' false (strip isSpace asciiName)
  let safeName := strip segmentEdge (substituteRuns (fun c => c == '-') '-' false safeName)
  let safeName := joinWith '-'
    ((safeName.splitOn '-').filter (fun part => strip (fun c => c == '.') part != []))
  let safeName := rstrip segmentEdge (safeName.take maxDeviceSegmentLength)
  if safeName = [] then "device-" ++ toString deviceId else String.ofList safeName

/-- `"/" + path.lstrip("/")`. -/
def absolutePath (path : List Char) : String :=
  String.ofList ('/' :: lstrip (fun c => c == '/') path)

/-- `base_path.strip("/")`. -/
def relativeBase (basePath : String) : List Char := strip (fun c => c == '/') basePath.toList

def revisionDestinationPath (basePath : String) (deviceName : Option String) (deviceId : ℕ)
    (revisionUuid : String) : String :=
  absolutePath (joinPaths (relativeBase basePath)
    ["devices".toList, (deviceDirectoryName nfkd deviceName deviceId).toList, "revisions".toList,
      revisionUuid.toList])

/-- `strftime("%Y-%m-%d_%H-%M-%S")` in UTC. -/
def backupCreationTimestamp (createdAt : Instant) : String :=
  let day := civil (date createdAt)
  let second := (createdAt / microsecondsPerSecond) % 86400
  String.ofList (Nat.toDigits 10 day.year.toNat ++ '-' :: twoDigits day.month.toNat ++
    '-' :: twoDigits day.day.toNat ++ '_' :: twoDigits (second / 3600).toNat ++
    '-' :: twoDigits (second / 60 % 60).toNat ++ '-' :: twoDigits (second % 60).toNat)

def backupFilenameStem (deviceName : Option String) (deviceId : ℕ) (createdAt : Instant) :
    String :=
  let deviceSegment := (deviceDirectoryName nfkd deviceName deviceId).toList
  let deviceSegment := rstrip segmentEdge (deviceSegment.take maxBackupDeviceSegmentLength)
  String.ofList deviceSegment ++ "_" ++ backupCreationTimestamp createdAt

/-- The path of a new copy; `none` is the `ValueError` for a key that is not
positive. -/
def ftpRevisionDestinationPath (basePath : String) (deviceName : Option String) (deviceId : ℕ)
    (createdAt : Instant) (revisionId : Option ℕ) (revisionUuid : Option String) :
    Option String :=
  let path := joinPaths (relativeBase basePath)
    ["devices".toList, (deviceDirectoryName nfkd deviceName deviceId).toList, "backups".toList,
      (backupCreationTimestamp createdAt).toList]
  match revisionId, revisionUuid with
  | some revisionId, _ =>
    if revisionId = 0 then none
    else some (absolutePath (path ++ '-' :: 'r' :: Nat.toDigits 10 revisionId))
  | none, some revisionUuid => some (absolutePath (joinPath path revisionUuid.toList))
  | none, none => some (absolutePath path)

variable {nfkd}

theorem absolutePath_ne_empty (path : List Char) : absolutePath path ≠ "" := by
  intro h
  have hlists := congrArg String.toList h
  simp [absolutePath] at hlists

/-- Stripping slashes in front keeps an ending that starts with none. -/
theorem absolutePath_append {front : List Char} {c : Char} (hc : c ≠ '/') (rest : List Char) :
    ∃ front', (absolutePath (front ++ c :: rest)).toList = front' ++ c :: rest := by
  unfold absolutePath lstrip
  rw [String.toList_ofList]
  induction front with
  | nil =>
    refine ⟨['/'], ?_⟩
    simp [hc]
  | cons d front ih =>
    by_cases hd : d = '/'
    · obtain ⟨front', hfront⟩ := ih
      refine ⟨front', ?_⟩
      rw [← hfront, hd, List.cons_append, List.dropWhile_cons_of_pos (by rfl)]
    · refine ⟨'/' :: d :: front, ?_⟩
      simp [hd]

/-- A new copy's path ends in the key of its revision. -/
theorem ftpRevisionDestinationPath_ends {basePath : String} {deviceName : Option String}
    {deviceId revisionId : ℕ} {createdAt : Instant} {uuid : Option String} {path : String}
    (h : ftpRevisionDestinationPath nfkd basePath deviceName deviceId createdAt (some revisionId)
      uuid = some path) : ∃ front, path.toList = front ++ 'r' :: Nat.toDigits 10 revisionId := by
  unfold ftpRevisionDestinationPath at h
  dsimp only at h
  split at h
  · cases h
  · rw [Option.some.injEq] at h
    rw [← h, List.append_cons]
    exact absolutePath_append (by decide) _

/-- What every text of a UUID has: 36 hexadecimal digits and dashes, and a dash. -/
def isUuidText (uuid : String) : Bool :=
  uuid.toList.length == 36 && uuid.toList.contains '-' &&
    uuid.toList.all (fun c => c.isDigit || ('a'.val ≤ c.val && c.val ≤ 'f'.val) || c == '-')

/-- A historical path ends in the UUID of its revision. -/
theorem revisionDestinationPath_ends {basePath : String} {deviceName : Option String}
    {deviceId : ℕ} {uuid : String} (huuid : isUuidText uuid = true) :
    ∃ front, (revisionDestinationPath nfkd basePath deviceName deviceId uuid).toList =
      front ++ uuid.toList := by
  unfold revisionDestinationPath joinPaths
  simp only [List.foldl_cons, List.foldl_nil]
  simp only [isUuidText, Bool.and_eq_true, beq_iff_eq, List.all_eq_true] at huuid
  obtain ⟨⟨hlength, _⟩, hchars⟩ := huuid
  cases hlist : uuid.toList with
  | nil => simp [hlist] at hlength
  | cons c rest =>
    have hc : c ≠ '/' := by
      intro hc
      have hchar := hchars c (by simp [hlist])
      rw [hc] at hchar
      revert hchar
      decide
    obtain ⟨front, hfront⟩ := joinPath_ends (joinPath (joinPath (joinPath (relativeBase basePath)
      "devices".toList) (deviceDirectoryName nfkd deviceName deviceId).toList)
      "revisions".toList) hc rest
    rw [hfront]
    exact absolutePath_append hc rest

/-- New copies of different revisions never share a directory, whatever their
devices, bases and creation times are. -/
theorem ftpRevisionDestinationPath_inj {basePath basePath' : String}
    {deviceName deviceName' : Option String} {deviceId deviceId' : ℕ}
    {createdAt createdAt' : Instant} {revisionId revisionId' : ℕ} {uuid uuid' : Option String}
    {path : String}
    (h : ftpRevisionDestinationPath nfkd basePath deviceName deviceId createdAt (some revisionId)
      uuid = some path)
    (h' : ftpRevisionDestinationPath nfkd basePath' deviceName' deviceId' createdAt'
      (some revisionId') uuid' = some path) : revisionId = revisionId' := by
  obtain ⟨front, hfront⟩ := ftpRevisionDestinationPath_ends h
  obtain ⟨front', hfront'⟩ := ftpRevisionDestinationPath_ends h'
  exact toDigits_suffix_inj rfl rfl (hfront.symm.trans hfront')

theorem revisionDestinationPath_inj {basePath basePath' : String}
    {deviceName deviceName' : Option String} {deviceId deviceId' : ℕ} {uuid uuid' : String}
    (huuid : isUuidText uuid = true) (huuid' : isUuidText uuid' = true)
    (h : revisionDestinationPath nfkd basePath deviceName deviceId uuid =
      revisionDestinationPath nfkd basePath' deviceName' deviceId' uuid') : uuid = uuid' := by
  obtain ⟨front, hfront⟩ := @revisionDestinationPath_ends nfkd basePath deviceName deviceId _ huuid
  obtain ⟨front', hfront'⟩ :=
    @revisionDestinationPath_ends nfkd basePath' deviceName' deviceId' _ huuid'
  rw [h, hfront'] at hfront
  simp only [isUuidText, Bool.and_eq_true, beq_iff_eq] at huuid huuid'
  have hlists := (List.append_inj' hfront (huuid'.1.1.trans huuid.1.1.symm)).2
  exact (String.toList_inj.mp hlists).symm

/-- A new copy never shares a directory with a historical one. -/
theorem ftpRevisionDestinationPath_ne {basePath basePath' : String}
    {deviceName deviceName' : Option String} {deviceId deviceId' revisionId : ℕ}
    {createdAt : Instant} {uuid : Option String} {uuid' : String}
    (huuid : isUuidText uuid' = true) :
    ftpRevisionDestinationPath nfkd basePath deviceName deviceId createdAt (some revisionId) uuid ≠
      some (revisionDestinationPath nfkd basePath' deviceName' deviceId' uuid') := by
  intro h
  obtain ⟨front, hfront⟩ := ftpRevisionDestinationPath_ends h
  obtain ⟨front', hfront'⟩ :=
    @revisionDestinationPath_ends nfkd basePath' deviceName' deviceId' _ huuid
  simp only [isUuidText, Bool.and_eq_true, List.all_eq_true] at huuid
  obtain ⟨⟨_, hdash⟩, hchars⟩ := huuid
  have hkey : 'r' :: Nat.toDigits 10 revisionId <:+ front ++ 'r' :: Nat.toDigits 10 revisionId :=
    List.suffix_append _ _
  have htext : uuid'.toList <:+ front ++ 'r' :: Nat.toDigits 10 revisionId := by
    rw [← hfront, hfront']
    exact List.suffix_append _ _
  -- one ending contains the other, but the key has no dash and the UUID no `r`
  rcases List.suffix_or_suffix_of_suffix hkey htext with hsuffix | hsuffix
  · have hr := hchars 'r' (hsuffix.subset List.mem_cons_self)
    revert hr
    decide
  · have hmem := hsuffix.subset (List.contains_iff_mem.mp hdash)
    rcases List.mem_cons.mp hmem with heq | hdigit
    · cases heq
    · have hdigit := Nat.isDigit_of_mem_toDigits (by omega) (by omega) hdigit
      cases hdigit

end ConfigBackup.DestinationPaths
