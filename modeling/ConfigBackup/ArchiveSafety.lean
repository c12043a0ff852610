import ConfigBackup.PosixPaths
import Mathlib.Algebra.BigOperators.Group.List.Basic
import Mathlib.Tactic.Linarith

/-!
Acceptance of device archives. Two adapters turn the members of a ZIP or TGZ archive into
entries, and the check walks over these. What an adapter leaves out or flattens is not checked.
-/

namespace ConfigBackup.ArchiveSafety

open PosixPaths Text

section Program

abbrev Bytes := List UInt8

structure ArchiveCheck where
  valid : Bool
  message : String
deriving DecidableEq, Repr

/-- An exception of the archive reader that means a corrupted archive, or another one. -/
inductive ReadError
  | corrupted | other
deriving DecidableEq, Repr

/-- A `ZipInfo`; the mode is the upper half of its external attributes. -/
structure ZipInfo where
  filename : List Char
  fileSize : ℕ
  mode : ℕ
deriving DecidableEq, Repr

def ZipInfo.isDir (item : ZipInfo) : Bool := item.filename.getLast? = some '/'

inductive TarType
  | regular | symbolicLink | hardLink | directory | device | unknown
deriving DecidableEq, Repr

structure TarInfo where
  name : List Char
  size : ℤ
  type : TarType
deriving DecidableEq, Repr

def TarInfo.isFile (item : TarInfo) : Bool := item.type = .regular

def TarInfo.isSym (item : TarInfo) : Bool := item.type = .symbolicLink

def TarInfo.isLnk (item : TarInfo) : Bool := item.type = .hardLink

/-- `zipfile` and `tarfile`. -/
structure Reader where
  infolist : Bytes → Except ReadError (List ZipInfo)
  getmembers : Bytes → Except ReadError (List TarInfo)

structure Entry where
  name : List Char
  size : ℤ
  isLink : Bool
deriving DecidableEq, Repr

/-- `_entries`. -/
def entries (reader : Reader) (content : Bytes) (kind : String) :
    Except ReadError (List Entry) :=
  if kind = "zip" then do
    let infolist ← reader.infolist content
    return (infolist.filter fun item => !item.isDir).map fun item =>
      ⟨item.filename, item.fileSize, item.isDir || false⟩
  else if kind = "tgz" then do
    let members ← reader.getmembers content
    return (members.filter fun item => item.isFile || item.isSym || item.isLnk).map fun item =>
      ⟨item.name, item.size, item.isSym || item.isLnk⟩
  else throw .corrupted

/-- `name.replace("\\", "/")`. -/
def slashed (name : List Char) : List Char := name.map fun c => if c = '\\' then '/' else c

def unsafePath (entry : Entry) : Bool :=
  let normalized := normpath (slashed entry.name)
  entry.name = [] || normalized = ['.', '.'] || ['.', '.', '/'].isPrefixOf normalized ||
    ['/'].isPrefixOf normalized || ((normalized.splitOn '/').headD []).contains ':' || entry.isLink

/-- The loop over the entries. -/
def checkEntries (maxUncompressedBytes : ℤ) : ℤ → List Entry → ArchiveCheck
  | _, [] => ⟨true, ""⟩
  | total, entry :: rest =>
    if unsafePath entry then
      ⟨false, "The device backup archive contains an unsafe path."⟩
    else if entry.size < 0 ∨ maxUncompressedBytes < total + entry.size then
      ⟨false, "The expanded device backup archive is too large."⟩
    else checkEntries maxUncompressedBytes (total + entry.size) rest

/-- `validate_archive`. -/
def validateArchive (reader : Reader) (content : Bytes) (kind : String)
    (maxEntries maxUncompressedBytes : ℤ) : Except ReadError ArchiveCheck :=
  match entries reader content kind with
  | .error .corrupted =>
    return ⟨false, "The device backup archive is invalid or corrupted."⟩
  | .error .other => throw .other
  | .ok entries =>
    if entries = [] then return ⟨false, "The device backup archive contains no files."⟩
    else if maxEntries < entries.length then
      return ⟨false, "The device backup archive contains too many files."⟩
    else return checkEntries maxUncompressedBytes 0 entries

end Program

section Extraction

/-- Where a segment of a name leads from a location. -/
def follow (location : List (List Char)) (segment : List Char) : List (List Char) :=
  if segment = [] ∨ segment = ['.'] then location
  else if segment = ['.', '.'] then location.dropLast
  else location ++ [segment]

/-- Where a member is extracted to; both slashes separate, and one in front is the root of the
file system. -/
def resolve (root : List (List Char)) (name : List Char) : List (List Char) :=
  ((slashed name).splitOn '/').foldl follow (if (slashed name).head? = some '/' then [] else root)

/-- The member stays beneath every extraction root. -/
def Beneath (name : List Char) : Prop := ∀ root, root <+: resolve root name

/-- One segment of a relative path in `normpath`. -/
def normalStep (parts : List (List Char)) (part : List Char) : List (List Char) :=
  if part = [] ∨ part = ['.'] then parts
  else if part ≠ ['.', '.'] ∨ parts = [] ∨ parts.getLast? = some ['.', '.'] then parts ++ [part]
  else parts.dropLast

theorem normpath_relative {path : List Char} (h : rootOf path = []) :
    normpath path =
      if joinWith '/' ((path.splitOn '/').foldl normalStep []) = [] then ['.']
      else joinWith '/' ((path.splitOn '/').foldl normalStep []) := by
  unfold normpath normalStep
  simp [h]

/-- The segments that are kept of a relative path are some parent segments, which lead out of
the root, followed by others. -/
theorem normalStep_follow (piece : List Char) (n : ℕ) {downs : List (List Char)}
    (hdowns : ['.', '.'] ∉ downs) :
    ∃ m others, ['.', '.'] ∉ others ∧
      normalStep (List.replicate n ['.', '.'] ++ downs) piece =
        List.replicate m ['.', '.'] ++ others ∧
      ∀ root : List (List Char),
        follow (List.dropLast^[n] root ++ downs) piece = List.dropLast^[m] root ++ others := by
  unfold normalStep follow
  by_cases hskip : piece = [] ∨ piece = ['.']
  · simp only [if_pos hskip]
    exact ⟨n, downs, hdowns, rfl, fun root => rfl⟩
  simp only [if_neg hskip]
  by_cases hparent : piece = ['.', '.']
  · subst hparent
    rcases List.eq_nil_or_concat downs with rfl | ⟨front, last, rfl⟩
    · have hkeep : List.replicate n ['.', '.'] = ([] : List (List Char)) ∨
          (List.replicate n ['.', '.']).getLast? = some ['.', '.'] := by
        cases n with
        | zero => exact Or.inl rfl
        | succ n =>
          right
          rw [List.replicate_succ', List.getLast?_concat]
      simp only [List.append_nil]
      rw [if_pos (Or.inr hkeep)]
      refine ⟨n + 1, [], List.not_mem_nil, ?_, fun root => ?_⟩
      · rw [List.replicate_succ', List.append_nil]
      · rw [if_pos trivial, Function.iterate_succ_apply', List.append_nil]
    · rw [List.concat_eq_append] at hdowns ⊢
      have hlast : last ≠ ['.', '.'] := fun h => hdowns (by simp [h])
      rw [if_neg (by simpa using hlast)]
      refine ⟨n, front, fun h => hdowns (by simp [h]), ?_, fun root => ?_⟩
      · rw [← List.append_assoc, List.dropLast_concat]
      · rw [if_pos rfl, ← List.append_assoc, List.dropLast_concat]
  · rw [if_pos (Or.inl hparent)]
    simp only [if_neg hparent]
    exact ⟨n, downs ++ [piece], by simp [hdowns, Ne.symm hparent], List.append_assoc _ _ _,
      fun root => List.append_assoc _ _ _⟩

theorem foldl_follow (pieces : List (List Char)) (n : ℕ) {downs : List (List Char)}
    (hdowns : ['.', '.'] ∉ downs) :
    ∃ m others, ['.', '.'] ∉ others ∧
      pieces.foldl normalStep (List.replicate n ['.', '.'] ++ downs) =
        List.replicate m ['.', '.'] ++ others ∧
      ∀ root : List (List Char),
        pieces.foldl follow (List.dropLast^[n] root ++ downs) =
          List.dropLast^[m] root ++ others := by
  induction pieces generalizing n downs with
  | nil => exact ⟨n, downs, hdowns, rfl, fun root => rfl⟩
  | cons piece pieces ih =>
    obtain ⟨k, next, hnext, hstep, hfollow⟩ := normalStep_follow piece n hdowns
    obtain ⟨m, others, hothers, hrun, hfollows⟩ := ih k hnext
    refine ⟨m, others, hothers, ?_, fun root => ?_⟩
    · rw [List.foldl_cons, hstep, hrun]
    · rw [List.foldl_cons, hfollow, hfollows]

/-- A joined path whose first segment is a parent segment leads out of the root. -/
theorem joinWith_parent (parts : List (List Char)) :
    joinWith '/' (['.', '.'] :: parts) = ['.', '.'] ∨
      ['.', '.', '/'].isPrefixOf (joinWith '/' (['.', '.'] :: parts)) = true := by
  cases parts with
  | nil => exact Or.inl (joinWith_singleton _ _)
  | cons part parts =>
    right
    rw [joinWith_cons_cons]
    exact List.isPrefixOf_iff_prefix.mpr ⟨joinWith '/' (part :: parts), by simp⟩

theorem normpath_absolute {path : List Char} (h : path.head? = some '/') :
    ['/'].isPrefixOf (normpath path) = true := by
  have hroot : ∃ rest, rootOf path = '/' :: rest := by
    unfold rootOf
    rw [if_pos h]
    split
    · exact ⟨['/'], rfl⟩
    · exact ⟨[], rfl⟩
  obtain ⟨rest, hroot⟩ := hroot
  unfold normpath
  dsimp only
  rw [if_neg (by simp [hroot]), hroot]
  rfl

/-- A name that passes the check stays beneath the root. -/
theorem beneath_of_safe {entry : Entry} (h : unsafePath entry = false) : Beneath entry.name := by
  unfold unsafePath at h
  simp only [Bool.or_eq_false_iff] at h
  obtain ⟨⟨⟨⟨⟨-, hparent⟩, hfront⟩, habsolute⟩, -⟩, -⟩ := h
  have hrelative : (slashed entry.name).head? ≠ some '/' := by
    intro hhead
    rw [normpath_absolute hhead] at habsolute
    cases habsolute
  have hroot : rootOf (slashed entry.name) = [] := if_neg hrelative
  obtain ⟨m, others, -, hparts, hfollow⟩ :=
    foldl_follow ((slashed entry.name).splitOn '/') 0 (List.not_mem_nil (a := ['.', '.']))
  intro root
  unfold resolve
  rw [if_neg hrelative]
  have hresolve := hfollow root
  rw [Function.iterate_zero_apply, List.append_nil] at hresolve
  rw [hresolve]
  cases m with
  | zero => exact ⟨others, rfl⟩
  | succ m =>
    rw [List.replicate_zero, List.nil_append, List.replicate_succ, List.cons_append] at hparts
    have hjoined : joinWith '/' (['.', '.'] :: (List.replicate m ['.', '.'] ++ others)) ≠ [] := by
      rcases joinWith_parent (List.replicate m ['.', '.'] ++ others) with hjoin | hjoin
      · simp [hjoin]
      · intro hnil
        rw [hnil] at hjoin
        cases hjoin
    rw [normpath_relative hroot, hparts, if_neg hjoined] at hparent hfront
    rcases joinWith_parent (List.replicate m ['.', '.'] ++ others) with hjoin | hjoin
    · simp [hjoin] at hparent
    · rw [hjoin] at hfront
      cases hfront

end Extraction

section Acceptance

/-- A member as the reader of its format reports it. -/
inductive Member
  | zip (item : ZipInfo)
  | tar (item : TarInfo)
deriving DecidableEq, Repr

def Member.name : Member → List Char
  | .zip item => item.filename
  | .tar item => item.name

def Member.size : Member → ℤ
  | .zip item => item.fileSize
  | .tar item => item.size

/-- The file type of a Unix mode. -/
def fileType (mode : ℕ) : ℕ := mode &&& 0o170000

/-- The member is a link, a device or a pipe; a ZIP member says so in its mode. -/
def Member.special : Member → Bool
  | .zip item => [0o120000, 0o020000, 0o060000, 0o010000].contains (fileType item.mode)
  | .tar item => item.type = .symbolicLink || item.type = .hardLink || item.type = .device

/-- The adapter of the format makes no entry of the member. -/
def Member.leftOut : Member → Bool
  | .zip item => item.isDir
  | .tar item => !(item.isFile || item.isSym || item.isLnk)

def Member.isZip : Member → Bool
  | .zip _ => true
  | .tar _ => false

def Member.entry : Member → Entry
  | .zip item => ⟨item.filename, item.fileSize, item.isDir || false⟩
  | .tar item => ⟨item.name, item.size, item.isSym || item.isLnk⟩

/-- The members of an archive as the readers report them. -/
def members (reader : Reader) (content : Bytes) (kind : String) :
    Except ReadError (List Member) :=
  if kind = "zip" then (reader.infolist content).map fun items => items.map .zip
  else if kind = "tgz" then (reader.getmembers content).map fun items => items.map .tar
  else throw .corrupted

def totalSize (members : List Member) : ℤ := (members.map Member.size).sum

/-- What an accepted archive should satisfy. -/
structure Safe (members : List Member) (maxUncompressedBytes : ℤ) : Prop where
  beneath : ∀ member ∈ members, Beneath member.name
  plain : ∀ member ∈ members, member.special = false
  bounded : totalSize members ≤ maxUncompressedBytes

/-- The members and properties that the entries do not show. -/
structure HidesNothing (members : List Member) (maxUncompressedBytes : ℤ) : Prop where
  beneath : ∀ member ∈ members, member.leftOut = true → Beneath member.name
  plain : ∀ member ∈ members, (member.isZip || member.leftOut) = true → member.special = false
  bounded : totalSize (members.filter Member.leftOut) ≤
    maxUncompressedBytes - totalSize (members.filter fun member => !member.leftOut)

theorem entries_eq (reader : Reader) (content : Bytes) (kind : String) :
    entries reader content kind = (members reader content kind).map fun members =>
      (members.filter fun member => !member.leftOut).map Member.entry := by
  unfold entries members
  by_cases hzip : kind = "zip"
  · rw [if_pos hzip, if_pos hzip]
    cases reader.infolist content with
    | error e => rfl
    | ok items =>
      simp only [Except.map, List.filter_map, List.map_map]
      rfl
  rw [if_neg hzip, if_neg hzip]
  by_cases htgz : kind = "tgz"
  · rw [if_pos htgz, if_pos htgz]
    cases reader.getmembers content with
    | error e => rfl
    | ok items =>
      simp only [Except.map, List.filter_map, List.map_map]
      have hseen : (fun item : TarInfo => item.isFile || item.isSym || item.isLnk) =
          (fun member : Member => !member.leftOut) ∘ Member.tar := by
        funext item
        exact (Bool.not_not _).symm
      rw [← hseen]
      rfl
  · rw [if_neg htgz, if_neg htgz]
    rfl

/-- Accepted entries have safe paths and fit. -/
theorem checkEntries_valid {maxUncompressedBytes total : ℤ} {entries : List Entry}
    (h : (checkEntries maxUncompressedBytes total entries).valid = true) :
    (∀ entry ∈ entries, unsafePath entry = false) ∧
      (entries ≠ [] → total + (entries.map Entry.size).sum ≤ maxUncompressedBytes) := by
  induction entries generalizing total with
  | nil => exact ⟨nofun, fun hne => absurd rfl hne⟩
  | cons entry rest ih =>
    unfold checkEntries at h
    split at h
    · cases h
    · rename_i hsafe
      split at h
      · cases h
      · rename_i hfits
        rw [not_or, not_lt, not_lt] at hfits
        obtain ⟨hrest, hsum⟩ := ih h
        constructor
        · intro other hother
          rcases List.mem_cons.mp hother with rfl | hother
          · exact Bool.not_eq_true _ ▸ hsafe
          · exact hrest other hother
        · intro _
          rw [List.map_cons, List.sum_cons]
          by_cases hnil : rest = []
          · rw [hnil, List.map_nil, List.sum_nil]
            omega
          · have hbound := hsum hnil
            omega

theorem totalSize_split (members : List Member) :
    totalSize members = totalSize (members.filter Member.leftOut) +
      totalSize (members.filter fun member => !member.leftOut) := by
  unfold totalSize
  induction members with
  | nil => rfl
  | cons member rest ih =>
    rw [List.map_cons, List.sum_cons, ih, List.filter_cons, List.filter_cons]
    cases member.leftOut with
    | true =>
      simp only [Bool.not_true, if_true, List.map_cons, List.sum_cons]
      simp only [Bool.false_eq_true, if_false]
      omega
    | false =>
      simp only [Bool.not_false, if_true, List.map_cons, List.sum_cons]
      simp only [Bool.false_eq_true, if_false]
      omega

/-- The flag of a TGZ entry shows every special member that is not left out. -/
theorem special_eq_isLink {member : Member} (hzip : member.isZip = false)
    (hseen : member.leftOut = false) : member.special = member.entry.isLink := by
  cases member with
  | zip item => cases hzip
  | tar item =>
    obtain ⟨name, size, type⟩ := item
    cases type with
    | regular | symbolicLink | hardLink => rfl
    | directory | device | unknown => cases hseen

/-- The entries of an accepted archive have passed the check. -/
theorem checked_of_valid {reader : Reader} {content : Bytes} {kind message : String}
    {maxEntries maxUncompressedBytes : ℤ} {found : List Entry}
    (hfound : entries reader content kind = .ok found)
    (hvalid : validateArchive reader content kind maxEntries maxUncompressedBytes =
      .ok ⟨true, message⟩) :
    found ≠ [] ∧ (checkEntries maxUncompressedBytes 0 found).valid = true := by
  unfold validateArchive at hvalid
  rw [hfound] at hvalid
  dsimp only at hvalid
  split at hvalid
  · cases hvalid
  · rename_i hne
    split at hvalid
    · cases hvalid
    · refine ⟨hne, ?_⟩
      rw [Except.ok.inj hvalid]

def readerOf (items : List ZipInfo) : Reader :=
  { infolist := fun _ => .ok items, getmembers := fun _ => .error .corrupted }

def configurationFile : ZipInfo := ⟨"config_dump.txt".toList, 20, 0o100644⟩

end Acceptance

end ConfigBackup.ArchiveSafety
