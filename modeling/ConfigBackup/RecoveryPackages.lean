import ConfigBackup.CodePoints
import ConfigBackup.RecoveryArchive
import Mathlib.Logic.Function.Basic

/-!
Recovery packages. A package is written to a temporary file next to its final name and
renamed when all files of the copy have been verified. Whatever raises on the way, the
temporary file is deleted, and a package that was published already is deleted with it.
-/

namespace ConfigBackup.RecoveryPackages

open Calendar CodePoints DestinationPaths IntegrityAudit Models NewestCopies RecoveryArchive
  RemoteFileNames Replication RevisionFiles Text TextLines

structure PackageFile where
  content : List UInt8
  modified : Instant
deriving DecidableEq, Repr

/-- The files of the package directory by their names. -/
abbrev Packages := List Char → Option PackageFile

structure RecoveryPackageResult where
  ready : Bool
  token : String
  filename : String
  size : ℕ
  sha256 : String
  fileCount : ℕ
  verifiedBytes : ℕ
  expiresAt : String
  replicaId : ℕ
  revisionId : ℕ
  destinationId : ℕ
  destinationName : String
deriving DecidableEq, Repr

/-- What one call is given: the copy and what replies while it is read, the canonical form of
the token unless it is invalid, the random part of the temporary name, the clock, and a
package that another call puts under the same token in the meantime. -/
structure RecoveryRequest where
  destination : BackupDestination
  destinationName : String
  copy : AuditedCopy
  connection : Except DestinationError Unit
  replies : Replies
  packageToken : Option String
  random : String
  ttlMinutes : ℤ
  maxTotalBytes : ℤ
  now : Instant
  arrival : Option PackageFile

/-- The exceptions in the block that writes the package: those it converts, and others. -/
inductive PackageFailure
  | destination (e : DestinationError)
  | os | badZip | other
deriving DecidableEq, Repr

/-- The calls that raise. -/
structure PackageFaults where
  root : Option Raised
  listing : Bool
  unlinkExpired : List Char → Bool
  packagePath : Bool
  createTemporary : Bool
  openTemporary : Bool
  writeTemporary : Option PackageFailure
  rename : Bool
  chmodPackage : Bool
  readPackage : Bool
  unlinkTemporary : Bool
  unlinkPackage : Bool

section Names

/-- The small letter that a pattern which ignores the case takes a character for. -/
def foldCase (c : Char) : Char := if c = 'İ' ∨ c = 'ı' then 'i' else c.toLower

def isHex (c : Char) : Bool := c.isDigit || ('a' ≤ foldCase c && foldCase c ≤ 'f')

def isGroup (size : ℕ) (group : List Char) : Bool := group.length == size && group.all isHex

/-- The groups of a UUID of versions 1 to 5. -/
def isUuid (text : List Char) : Bool :=
  match text.splitOn '-' with
  | [first, second, version :: third, variant :: fourth, last] =>
    isGroup 8 first && isGroup 4 second && ('1' ≤ version && version ≤ '5') && isGroup 3 third &&
      ['8', '9', 'a', 'b'].contains (foldCase variant) && isGroup 3 fourth && isGroup 12 last
  | _ => false

def hasSuffix (suffix : String) (name : List Char) : Bool :=
  suffix.toList.isSuffixOf (name.map foldCase)

/-- `_PACKAGE_NAME.fullmatch(name)`. -/
def isPackageName (name : List Char) : Bool :=
  hasSuffix ".zip" name && isUuid (name.take (name.length - 4))

/-- `_TEMP_NAME.fullmatch(name)`. -/
def isTemporaryName (name : List Char) : Bool :=
  match name with
  | '.' :: rest =>
    let body := (rest.drop 37).take (rest.length - 41)
    42 ≤ rest.length && (rest.take 36).all (fun c => isHex c || c == '-') &&
      rest[36]? == some '.' && hasSuffix ".tmp" rest && body.all (fun c => c != '\n')
  | _ => false

def packageName (token : String) : List Char := token.toList ++ ".zip".toList

def temporaryName (token random : String) : List Char :=
  '.' :: token.toList ++ '.' :: random.toList ++ ".tmp".toList

end Names

section Texts

/-- `_single_line`. -/
def singleLine (value : String) : String :=
  String.ofList (strip isSpace (joinWith ' ' (splitLines (fun c => isLineBreak (ofChar c))
    (fun c => c == '\r') (fun c => c == '\n') value.toList)))

/-- `_recovery_readme`. -/
def recoveryReadme (request : RecoveryRequest) (remotePath : String) : String :=
  "NetBox Config Backup - verified FTP recovery package\n" ++ "\n" ++
  "Device: " ++ singleLine (request.copy.target.deviceName.getD "None") ++ "\n" ++
  "Revision UUID: " ++ request.copy.revision.revisionUuid ++ "\n" ++
  "FTP destination: " ++ singleLine request.destinationName ++ "\n" ++
  "FTP revision path: " ++ singleLine remotePath ++ "\n" ++
  "Package prepared: " ++ isoformat request.now ++ "\n" ++ "\n" ++
  "Every copied FTP file was verified against the size and SHA256 recorded " ++ "by NetBox.\n" ++
  "This package is for manual recovery only. The plugin did not connect to " ++
  "the device and does not import, restore, or apply any configuration.\n"

end Texts

section Cleanup

/-- `cleanup_expired_recovery_packages`. -/
def cleanupExpiredRecoveryPackages (unlinkFails : List Char → Bool) (ttlMinutes : ℤ)
    (now : Instant) (packages : Packages) : Packages := fun name =>
  match packages name with
  | none => none
  | some file =>
    if (isPackageName name || isTemporaryName name) &&
        decide (file.modified < now - ttlMinutes * minutes 1) && !unlinkFails name then none
    else some file

def withFile (packages : Packages) (name : List Char) (file : PackageFile) : Packages :=
  Function.update packages name (some file)

def withoutFile (packages : Packages) (name : List Char) : Packages :=
  Function.update packages name none

end Cleanup

section Package

variable (lib : Library) (zip : Members → List UInt8) (faults : PackageFaults)
  (request : RecoveryRequest) (token : String)

/-- The variables of the block that writes the package, and the directory. -/
structure Block where
  temporary : Option (List Char)
  published : Bool
  packages : Packages

abbrev Program := EStateM PackageFailure Block

/-- A call without an effect on the directory. -/
def call (fails : Option PackageFailure) : Program Unit := fun s =>
  match fails with
  | none => .ok () s
  | some e => .error e s

def osError (fails : Bool) : Option PackageFailure := if fails then some .os else none

/-- `mkstemp`, which takes no name that there is. -/
def createTemporary : Program Unit := fun s =>
  let name := temporaryName token request.random
  if faults.createTemporary || (s.packages name).isSome then .error .os s
  else .ok () { s with
    temporary := some name, packages := withFile s.packages name ⟨[], request.now⟩ }

def archivePrefix : String :=
  deviceDirectoryName lib.nfkd request.copy.target.deviceName request.copy.target.deviceId ++ "/" ++
    request.copy.revision.revisionUuid

/-- The verified download into the archive. -/
def download : Program (VerifiedFtpDownloadResult × Members) := fun s =>
  match writeVerifiedFtpReplicaToArchive lib request.destination request.copy request.connection
      request.replies (archivePrefix lib request) request.maxTotalBytes with
  | .error e => .error (.destination e) s
  | .ok result => .ok result s

/-- The archive with its last member reaches the temporary file. -/
def writeTemporary (transfer : VerifiedFtpDownloadResult × Members) : Program Unit := fun s =>
  match faults.writeTemporary with
  | some e => .error e s
  | none =>
    let readme := (recoveryReadme request transfer.1.remotePath).toUTF8.toList
    let content := zip (transfer.2 ++
      [(archivePrefix lib request ++ "/RECOVERY_README.txt", readme)])
    .ok () { s with
      packages := withFile s.packages (temporaryName token request.random) ⟨content, request.now⟩ }

def tokenConflict : DestinationError :=
  ⟨"RECOVERY_TOKEN_CONFLICT", "A recovery package with this identifier already exists."⟩

/-- The directory by the time that the files have been downloaded. -/
def afterArrival (packages : Packages) : Packages :=
  match request.arrival with
  | none => packages
  | some file => withFile packages (packageName token) file

def checkFree : Program Unit := fun s =>
  let packages := afterArrival request token s.packages
  if (packages (packageName token)).isSome then
    .error (.destination tokenConflict) { s with packages := packages }
  else .ok () { s with packages := packages }

/-- `os.replace`. -/
def publish : Program Unit := fun s =>
  if faults.rename then .error .os s
  else
    match s.packages (temporaryName token request.random) with
    | none => .error .os s
    | some file => .ok () { s with
      temporary := none
      published := true
      packages := withoutFile (withFile s.packages (packageName token) file)
        (temporaryName token request.random) }

/-- The block that writes the package. -/
def writePackage : Program VerifiedFtpDownloadResult := do
  createTemporary faults request token
  call (osError faults.openTemporary)
  let transfer ← download lib request
  writeTemporary lib zip faults request token transfer
  checkFree request token
  publish faults request token
  call (osError faults.chmodPackage)
  pure transfer.1

/-- The exception handlers and the `finally` of the block. -/
def cleanUp (e : PackageFailure) (s : Block) : Packages :=
  let packages :=
    if (e == .os || e == .badZip) && s.published && !faults.unlinkPackage then
      withoutFile s.packages (packageName token) else s.packages
  match s.temporary with
  | none => packages
  | some name => if faults.unlinkTemporary then packages else withoutFile packages name

def writeFailed (message : String) : Raised :=
  .destination ⟨"RECOVERY_PACKAGE_WRITE_FAILED", message⟩

def PackageFailure.raised : PackageFailure → Raised
  | .destination e => .destination e
  | .os | .badZip =>
    writeFailed "The temporary recovery package could not be created safely."
  | .other => .other

/-- `now + timedelta(minutes=ttl_minutes)`, which raises `OverflowError` after year 9999. -/
def expiresAt : Option Instant :=
  let expires := request.now + request.ttlMinutes * minutes 1
  if expires < 253402300800 * microsecondsPerSecond then some expires else none

/-- What is done once the package is published. -/
def finishPackage (transfer : VerifiedFtpDownloadResult) (packages : Packages) :
    Except Raised RecoveryPackageResult × Packages :=
  match faults.readPackage, packages (packageName token) with
  | true, _ | false, none =>
    (.error (writeFailed "The temporary recovery package could not be verified safely."),
      if faults.unlinkPackage then packages else withoutFile packages (packageName token))
  | false, some file =>
    match expiresAt request with
    | none => (.error .other, packages)
    | some expires =>
      (.ok {
        ready := true
        token := token
        filename := deviceDirectoryName lib.nfkd request.copy.target.deviceName
            request.copy.target.deviceId ++ "_" ++ request.copy.revision.revisionUuid ++
          "_verified-ftp-backup.zip"
        size := file.content.length
        sha256 := lib.sha256Hex file.content
        fileCount := transfer.fileCount
        verifiedBytes := transfer.verifiedBytes
        expiresAt := isoformat expires
        replicaId := request.copy.replica.pk
        revisionId := request.copy.revision.pk
        destinationId := request.destination.pk
        destinationName := request.destinationName }, packages)

/-- `build_ftp_recovery_package`: what it returns or raises, and the directory it leaves. -/
def buildFtpRecoveryPackage (packages : Packages) :
    Except Raised RecoveryPackageResult × Packages :=
  match request.packageToken with
  | none =>
    (.error (.destination
      ⟨"RECOVERY_TOKEN_INVALID", "The recovery package identifier is invalid."⟩), packages)
  | some token =>
    if request.ttlMinutes < 1 then
      (.error (.destination ⟨"RECOVERY_TTL_INVALID",
        "The recovery package lifetime is not configured correctly."⟩), packages)
    else
      match faults.root with
      | some e => (.error e, packages)
      | none =>
        if faults.listing then (.error .other, packages)
        else
          let packages := cleanupExpiredRecoveryPackages faults.unlinkExpired request.ttlMinutes
            request.now packages
          if faults.packagePath then
            (.error (.destination ⟨"RECOVERY_STORAGE_INVALID",
              "The temporary recovery package path is invalid."⟩), packages)
          else if (packages (packageName token)).isSome then
            (.error (.destination tokenConflict), packages)
          else
            match writePackage lib zip faults request token ⟨none, false, packages⟩ with
            | .error e s => (.error e.raised, cleanUp faults token e s)
            | .ok transfer s => finishPackage lib faults request token transfer s.packages

end Package

section Blocks

variable {α β : Type} {m : Program α} {f : α → Program β} {s t : Block} {e : PackageFailure}

theorem bind_eq_error : (m >>= f) s = .error e t ↔
    m s = .error e t ∨ ∃ a u, m s = .ok a u ∧ f a u = .error e t := by
  simp only [bind, EStateM.bind]
  cases m s with
  | ok a u => simp
  | error e' u => simp

theorem bind_eq_ok {b : β} : (m >>= f) s = .ok b t ↔ ∃ a u, m s = .ok a u ∧ f a u = .ok b t := by
  simp only [bind, EStateM.bind]
  cases m s with
  | ok a u => simp
  | error e' u => simp

variable {faults : PackageFaults} {request : RecoveryRequest} {token : String}
  {before : Packages} {lib : Library} {zip : Members → List UInt8}

/-- The block has its temporary file, and nothing else has changed. -/
structure Writing (request : RecoveryRequest) (token : String) (before : Packages) (s : Block) :
    Prop where
  temporary : s.temporary = some (temporaryName token request.random)
  published : s.published = false
  fresh : before (temporaryName token request.random) = none
  others : ∀ name, name ≠ temporaryName token request.random → s.packages name = before name

/-- The package has taken the place of the temporary file. -/
structure Published (token : String) (before : Packages) (s : Block) : Prop where
  temporary : s.temporary = none
  published : s.published = true
  others : ∀ name, name ≠ packageName token → s.packages name = before name

theorem call_error {fails : Option PackageFailure} (h : call fails s = .error e t) :
    fails = some e ∧ t = s := by
  unfold call at h
  split at h
  · cases h
  · cases h
    exact ⟨rfl, rfl⟩

theorem call_ok {fails : Option PackageFailure} {a : Unit} (h : call fails s = .ok a t) :
    t = s := by
  unfold call at h
  split at h
  · cases h
    rfl
  · cases h

@[simp] theorem withFile_same (packages : Packages) (name : List Char) (file : PackageFile) :
    withFile packages name file name = some file :=
  Function.update_self ..

theorem withFile_other {packages : Packages} {name other : List Char} {file : PackageFile}
    (h : other ≠ name) : withFile packages name file other = packages other :=
  Function.update_of_ne h ..

theorem withoutFile_other {packages : Packages} {name other : List Char} (h : other ≠ name) :
    withoutFile packages name other = packages other :=
  Function.update_of_ne h ..

@[simp] theorem withoutFile_same (packages : Packages) (name : List Char) :
    withoutFile packages name name = none :=
  Function.update_self ..

/-- What is left when the only file that differs is deleted. -/
theorem withoutFile_eq {packages : Packages} {name : List Char} (hfresh : before name = none)
    (hothers : ∀ other, other ≠ name → packages other = before other) :
    withoutFile packages name = before := by
  funext other
  by_cases hname : other = name
  · rw [hname, withoutFile_same, hfresh]
  · rw [withoutFile_other hname, hothers other hname]

theorem temporaryName_ne_packageName (token random : String) :
    temporaryName token random ≠ packageName token := by
  intro h
  have hlength := congrArg List.length h
  unfold temporaryName packageName at hlength
  simp only [List.length_cons, List.length_append] at hlength
  have hzip : ".zip".toList.length = 4 := rfl
  have htmp : ".tmp".toList.length = 4 := rfl
  omega

theorem createTemporary_ok {a : Unit} (hs : s.published = false)
    (h : createTemporary faults request token s = .ok a t) :
    Writing request token s.packages t := by
  unfold createTemporary at h
  dsimp only at h
  split at h
  · cases h
  · rename_i hfree
    cases h
    rw [Bool.or_eq_true, not_or, Option.not_isSome_iff_eq_none] at hfree
    exact ⟨rfl, hs, hfree.2, fun name hname => withFile_other hname⟩

theorem createTemporary_error (h : createTemporary faults request token s = .error e t) :
    t = s := by
  unfold createTemporary at h
  dsimp only at h
  split at h
  · cases h
    rfl
  · cases h

theorem download_ok {result : VerifiedFtpDownloadResult × Members}
    (h : download lib request s = .ok result t) : t = s := by
  unfold download at h
  split at h
  · cases h
  · cases h
    rfl

theorem download_error (h : download lib request s = .error e t) : t = s := by
  unfold download at h
  split at h
  · cases h
    rfl
  · cases h

theorem writeTemporary_ok {a : Unit} {transfer : VerifiedFtpDownloadResult × Members}
    (hs : Writing request token before s)
    (h : writeTemporary lib zip faults request token transfer s = .ok a t) :
    Writing request token before t := by
  unfold writeTemporary at h
  split at h
  · cases h
  · cases h
    exact ⟨hs.temporary, hs.published, hs.fresh,
      fun name hname => (withFile_other hname).trans (hs.others name hname)⟩

theorem writeTemporary_error {transfer : VerifiedFtpDownloadResult × Members}
    (h : writeTemporary lib zip faults request token transfer s = .error e t) : t = s := by
  unfold writeTemporary at h
  split at h
  · cases h
    rfl
  · cases h

theorem checkFree_ok {a : Unit} (h : checkFree request token s = .ok a t) : t = s := by
  unfold checkFree at h
  dsimp only at h
  split at h
  · cases h
  · rename_i hfree
    cases h
    unfold afterArrival at hfree ⊢
    cases harrival : request.arrival with
    | none => rfl
    | some file =>
      rw [harrival] at hfree
      dsimp only at hfree
      rw [withFile_same] at hfree
      exact absurd rfl hfree

/-- Only another call can have put a package by then. -/
theorem checkFree_error (hs : Writing request token before s)
    (hfree : before (packageName token) = none)
    (h : checkFree request token s = .error e t) :
    ∃ file, request.arrival = some file ∧
      t = { s with packages := withFile s.packages (packageName token) file } := by
  unfold checkFree at h
  dsimp only at h
  split at h
  · rename_i hfound
    cases h
    unfold afterArrival at hfound ⊢
    cases harrival : request.arrival with
    | none =>
      rw [harrival] at hfound
      dsimp only at hfound
      have hname := Ne.symm (temporaryName_ne_packageName token request.random)
      rw [hs.others _ hname, hfree] at hfound
      cases hfound
    | some file => exact ⟨file, rfl, rfl⟩
  · cases h

theorem publish_ok {a : Unit} (hs : Writing request token before s)
    (h : publish faults request token s = .ok a t) : Published token before t := by
  unfold publish at h
  split at h
  · cases h
  · split at h
    · cases h
    · cases h
      refine ⟨rfl, rfl, fun name hname => ?_⟩
      show withoutFile _ _ name = before name
      by_cases htemporary : name = temporaryName token request.random
      · rw [htemporary, withoutFile_same, hs.fresh]
      · rw [withoutFile_other htemporary, withFile_other hname, hs.others name htemporary]

theorem publish_error (h : publish faults request token s = .error e t) : t = s := by
  unfold publish at h
  split at h
  · cases h
    rfl
  · split at h
    · cases h
      rfl
    · cases h

variable (hunlink : faults.unlinkTemporary = false) (hunlinkPackage : faults.unlinkPackage = false)

include hunlink in
theorem cleanUp_writing (hs : Writing request token before s) :
    cleanUp faults token e s = before := by
  unfold cleanUp
  rw [hs.published, hs.temporary, hunlink]
  simp only [Bool.and_false, Bool.false_and, Bool.false_eq_true, if_false]
  exact withoutFile_eq hs.fresh hs.others

include hunlinkPackage in
theorem cleanUp_published (hs : Published token before s)
    (hfree : before (packageName token) = none) : cleanUp faults token .os s = before := by
  unfold cleanUp
  rw [hs.published, hs.temporary, hunlinkPackage]
  exact withoutFile_eq hfree hs.others

include hunlink in
/-- The package that another call has put stays. -/
theorem cleanUp_conflict (hs : Writing request token before s) {file : PackageFile} :
    cleanUp faults token e { s with packages := withFile s.packages (packageName token) file } =
      withFile before (packageName token) file := by
  unfold cleanUp
  dsimp only
  rw [hs.published, hs.temporary, hunlink]
  simp only [Bool.and_false, Bool.false_and, Bool.false_eq_true, if_false]
  funext name
  by_cases htemporary : name = temporaryName token request.random
  · rw [htemporary, withoutFile_same,
      withFile_other (temporaryName_ne_packageName token request.random), hs.fresh]
  · rw [withoutFile_other htemporary]
    by_cases hname : name = packageName token
    · rw [hname, withFile_same, withFile_same]
    · rw [withFile_other hname, withFile_other hname, hs.others name htemporary]

include hunlink hunlinkPackage in
/-- A block that raises leaves the directory as it was, but for the package of another call. -/
theorem writePackage_error (hfree : before (packageName token) = none)
    (h : writePackage lib zip faults request token ⟨none, false, before⟩ = .error e t) :
    cleanUp faults token e t = before ∨
      ∃ file, request.arrival = some file ∧
        cleanUp faults token e t = withFile before (packageName token) file := by
  unfold writePackage at h
  rcases bind_eq_error.mp h with h | ⟨_, s₁, hcreate, h⟩
  · rw [createTemporary_error h]
    unfold cleanUp
    simp
  have hwriting := createTemporary_ok rfl hcreate
  rcases bind_eq_error.mp h with h | ⟨_, s₂, hopen, h⟩
  · rw [(call_error h).2]
    exact Or.inl (cleanUp_writing hunlink hwriting)
  rw [call_ok hopen] at h
  rcases bind_eq_error.mp h with h | ⟨transfer, s₃, hdownload, h⟩
  · rw [download_error h]
    exact Or.inl (cleanUp_writing hunlink hwriting)
  rw [download_ok hdownload] at h
  rcases bind_eq_error.mp h with h | ⟨_, s₄, hwrite, h⟩
  · rw [writeTemporary_error h]
    exact Or.inl (cleanUp_writing hunlink hwriting)
  have hwritten := writeTemporary_ok hwriting hwrite
  rcases bind_eq_error.mp h with h | ⟨_, s₅, hcheck, h⟩
  · obtain ⟨file, harrival, ht⟩ := checkFree_error hwritten hfree h
    rw [ht]
    exact Or.inr ⟨file, harrival, cleanUp_conflict hunlink hwritten⟩
  rw [checkFree_ok hcheck] at h
  rcases bind_eq_error.mp h with h | ⟨_, s₆, hpublish, h⟩
  · rw [publish_error h]
    exact Or.inl (cleanUp_writing hunlink hwritten)
  have hpublished := publish_ok hwritten hpublish
  rcases bind_eq_error.mp h with h | ⟨_, _, _, h⟩
  · obtain ⟨hfails, ht⟩ := call_error h
    have he : e = .os := by
      unfold osError at hfails
      split at hfails
      · exact (Option.some.inj hfails).symm
      · cases hfails
    rw [ht, he]
    exact Or.inl (cleanUp_published hunlinkPackage hpublished hfree)
  · cases h

theorem writePackage_ok {transfer : VerifiedFtpDownloadResult}
    (h : writePackage lib zip faults request token ⟨none, false, before⟩ = .ok transfer t) :
    Published token before t := by
  unfold writePackage at h
  obtain ⟨_, s₁, hcreate, h⟩ := bind_eq_ok.mp h
  have hwriting := createTemporary_ok rfl hcreate
  obtain ⟨_, s₂, hopen, h⟩ := bind_eq_ok.mp h
  rw [call_ok hopen] at h
  obtain ⟨_, s₃, hdownload, h⟩ := bind_eq_ok.mp h
  rw [download_ok hdownload] at h
  obtain ⟨_, s₄, hwrite, h⟩ := bind_eq_ok.mp h
  have hwritten := writeTemporary_ok hwriting hwrite
  obtain ⟨_, s₅, hcheck, h⟩ := bind_eq_ok.mp h
  rw [checkFree_ok hcheck] at h
  obtain ⟨_, s₆, hpublish, h⟩ := bind_eq_ok.mp h
  have hpublished := publish_ok hwritten hpublish
  obtain ⟨_, s₇, hchmod, h⟩ := bind_eq_ok.mp h
  rw [call_ok hchmod] at h
  cases h
  exact hpublished

end Blocks

section Packages

variable {lib : Library} {zip : Members → List UInt8} {faults : PackageFaults}
  {request : RecoveryRequest} {packages : Packages} {name : List Char} {file : PackageFile}

theorem of_cleanup {unlinkFails : List Char → Bool} {ttlMinutes : ℤ} {now : Instant}
    (h : cleanupExpiredRecoveryPackages unlinkFails ttlMinutes now packages name = some file) :
    packages name = some file := by
  unfold cleanupExpiredRecoveryPackages at h
  cases hfound : packages name with
  | none =>
    rw [hfound] at h
    cases h
  | some found =>
    rw [hfound] at h
    dsimp only at h
    split at h
    · cases h
    · exact h

/-- A package that cannot be verified is deleted again. -/
theorem finishPackage_error {token : String} {before : Packages} {s : Block} {raised : Raised}
    {transfer : VerifiedFtpDownloadResult} (hs : Published token before s)
    (hfree : before (packageName token) = none) (hunlinkPackage : faults.unlinkPackage = false)
    (hexpires : (expiresAt request).isSome = true)
    (h : (finishPackage lib faults request token transfer s.packages).1 = .error raised) :
    (finishPackage lib faults request token transfer s.packages).2 = before := by
  obtain ⟨expires, hexpires⟩ := Option.isSome_iff_exists.mp hexpires
  have hdeleted := withoutFile_eq hfree hs.others
  unfold finishPackage at h ⊢
  cases hread : faults.readPackage with
  | true =>
    dsimp only
    rw [hunlinkPackage, if_neg Bool.false_ne_true]
    exact hdeleted
  | false =>
    cases hpackage : s.packages (packageName token) with
    | none =>
      dsimp only
      rw [hunlinkPackage, if_neg Bool.false_ne_true]
      exact hdeleted
    | some found =>
      rw [hread, hpackage, hexpires] at h
      cases h

/-- A file that a call left which raised: it was there before, or another call put it under the
same token in the meantime. -/
def LeftByOthers (request : RecoveryRequest) (packages : Packages) (name : List Char)
    (file : PackageFile) : Prop :=
  packages name = some file ∨ ∃ token, request.packageToken = some token ∧
    name = packageName token ∧ request.arrival = some file

/-- A call that raises leaves no package and no temporary file of its own. -/
theorem leftByOthers_of_raised {raised : Raised} (hunlink : faults.unlinkTemporary = false)
    (hunlinkPackage : faults.unlinkPackage = false) (hexpires : (expiresAt request).isSome = true)
    (h : (buildFtpRecoveryPackage lib zip faults request packages).1 = .error raised)
    (hfile : (buildFtpRecoveryPackage lib zip faults request packages).2 name = some file) :
    LeftByOthers request packages name file := by
  unfold buildFtpRecoveryPackage at h hfile
  cases htoken : request.packageToken with
  | none =>
    rw [htoken] at hfile
    exact Or.inl hfile
  | some token =>
    rw [htoken] at h hfile
    dsimp only at h hfile
    split at hfile
    · exact Or.inl hfile
    · rename_i httl
      rw [if_neg httl] at h
      cases hroot : faults.root with
      | some e =>
        rw [hroot] at hfile
        exact Or.inl hfile
      | none =>
        rw [hroot] at h hfile
        dsimp only at h hfile
        split at hfile
        · exact Or.inl hfile
        · rename_i hlisting
          rw [if_neg hlisting] at h
          split at hfile
          · exact Or.inl (of_cleanup hfile)
          · rename_i hpath
            rw [if_neg hpath] at h
            split at hfile
            · exact Or.inl (of_cleanup hfile)
            · rename_i hfree
              rw [if_neg hfree] at h
              rw [Option.not_isSome_iff_eq_none] at hfree
              cases hwrite : writePackage lib zip faults request token ⟨none, false,
                  cleanupExpiredRecoveryPackages faults.unlinkExpired request.ttlMinutes
                    request.now packages⟩ with
              | error e t =>
                rw [hwrite] at hfile
                dsimp only at hfile
                rcases writePackage_error hunlink hunlinkPackage hfree hwrite with
                  hsame | ⟨other, harrival, hsame⟩
                · rw [hsame] at hfile
                  exact Or.inl (of_cleanup hfile)
                · rw [hsame] at hfile
                  by_cases hname : name = packageName token
                  · rw [hname, withFile_same] at hfile
                    exact Or.inr ⟨token, htoken, hname, harrival.trans hfile⟩
                  · rw [withFile_other hname] at hfile
                    exact Or.inl (of_cleanup hfile)
              | ok transfer t =>
                rw [hwrite] at h hfile
                dsimp only at h hfile
                rw [finishPackage_error (writePackage_ok hwrite) hfree hunlinkPackage hexpires h]
                  at hfile
                exact Or.inl (of_cleanup hfile)

/-- A download that returns has put the verified files of the copy into the archive, and none
beyond the limit; a file that is not intact, or too many bytes, raises; and a call that raises
leaves no package and no temporary file of its own. -/
theorem recovery_sound (lib : Library) (zip : Members → List UInt8) :
    (∀ destination copy connection replies archivePrefix maxTotalBytes result members,
      writeVerifiedFtpReplicaToArchive lib destination copy connection replies archivePrefix
          maxTotalBytes = .ok (result, members) →
        Verified lib copy replies archivePrefix members ∧ result.fileCount = members.length ∧
          result.verifiedBytes = totalBytes members ∧ (totalBytes members : ℤ) ≤ maxTotalBytes) ∧
    (∀ destination copy connection replies archivePrefix maxTotalBytes tree,
      (∀ place, Answers (replies.reader place) tree) →
        (maxTotalBytes < treeBytes lib tree copy ∨ ∃ place expected,
          (filesOf lib copy)[place]? = some expected ∧
            ¬ Intact lib tree copy (replies.reader place) expected) →
          ∃ e, writeVerifiedFtpReplicaToArchive lib destination copy connection replies
            archivePrefix maxTotalBytes = .error e) ∧
    (∀ faults request packages raised, faults.unlinkTemporary = false →
      faults.unlinkPackage = false → (expiresAt request).isSome = true →
        (buildFtpRecoveryPackage lib zip faults request packages).1 = .error raised →
          ∀ name file,
            (buildFtpRecoveryPackage lib zip faults request packages).2 name = some file →
              LeftByOthers request packages name file) := by
  refine ⟨fun _ _ _ _ _ _ _ _ h => verified_of_returns h, ?_, ?_⟩
  · intro destination copy connection replies archivePrefix maxTotalBytes tree hanswers hbroken
    cases hrun : writeVerifiedFtpReplicaToArchive lib destination copy connection replies
        archivePrefix maxTotalBytes with
    | error e => exact ⟨e, rfl⟩
    | ok returned =>
      obtain ⟨result, members⟩ := returned
      rcases hbroken with hlimit | ⟨place, expected, hexpected, hbroken⟩
      · have hbytes := totalBytes_of_returns hanswers hrun
        have hwithin := (verified_of_returns hrun).2.2.2
        omega
      · exact absurd (intact_of_returns hanswers hrun hexpected) hbroken
  · exact fun _ _ _ _ hunlink hunlinkPackage hexpires h _ _ hfile =>
      leftByOthers_of_raised hunlink hunlinkPackage hexpires h hfile

/-- The uploaded copy with the digest of its artifact. -/
def routerCopy : AuditedCopy :=
  { exampleAuditedCopy with
    replica := { exampleAuditedCopy.replica with
      remotePath := "/backups/devices/router/revisions/revision-1" }
    artifacts := exampleAuditedCopy.artifacts.map (fun artifact => { artifact with
      rawHash := "ca978112ca1bbdcafac231b39a23dc4da786eff8147c4e72b9807785afee48bb" }) }

def routerManifest : List UInt8 :=
  ("\x7b\"artifacts\":[\x7b\"artifact_type\":\"running\",\"filename\":\"running.txt\"," ++
    "\"format\":\"text\",\"primary\":true,\"sha256\":\"ca978112ca1bbdcafac231b39a23dc4d" ++
    "a786eff8147c4e72b9807785afee48bb\",\"size\":1\x7d]," ++
    "\"created\":\"1970-01-01T00:00:00+00:00\",\"device_directory\":\"router\"," ++
    "\"device_id\":7,\"device_name\":\"router\"," ++
    "\"driver_id\":\"driver\",\"revision_uuid\":\"revision-1\",\"schema\":1\x7d").toList.map
    (fun c => UInt8.ofNat c.toNat)

/-- JSON of which the manifest of the copy is used. -/
def routerLibrary : Library :=
  { exampleLibrary with
    loads := fun content => if content = routerManifest then
      some (manifestPayload exampleLibrary routerCopy.target routerCopy.revision
        routerCopy.artifacts false none none) else none
    dumps := fun _ => routerManifest }

/-- The directory of the copy, for the content of its artifact. -/
def routerTree (content : List UInt8) : RemoteTree := fun _ filename =>
  if filename = "running.txt" then some content
  else if filename = manifestName then some routerManifest
  else none

def routerReplies (content : List UInt8) : Replies :=
  ⟨fun _ => serverOf (routerTree content), fun _ => false⟩

theorem answers_routerReplies (content : List UInt8) (place : ℕ) :
    Answers ((routerReplies content).reader place) (routerTree content) := by
  intro directory filename chunks h
  unfold routerReplies serverOf at h
  dsimp only at h
  split at h
  · cases h
  · rename_i found hfound
    cases h
    rw [hfound]
    simp

def routerRequest : RecoveryRequest where
  destination := exampleDestination
  destinationName := "backup server"
  copy := routerCopy
  connection := .ok ()
  replies := routerReplies [97]
  packageToken := some "0a1b2c3d-0000-4000-8000-000000000001"
  random := "a1b2c3d4"
  ttlMinutes := 60
  maxTotalBytes := 1000
  now := days 40
  arrival := none

def noFaults : PackageFaults where
  root := none
  listing := false
  unlinkExpired _ := false
  packagePath := false
  createTemporary := false
  openTemporary := false
  writeTemporary := none
  rename := false
  chmodPackage := false
  readPackage := false
  unlinkTemporary := false
  unlinkPackage := false

/-- A package that an earlier call with the same token has published. -/
def publishedBefore : Packages := fun name =>
  if name = packageName "0a1b2c3d-0000-4000-8000-000000000001" then some ⟨[80, 75], days 40⟩
  else none

theorem recovery_sound_router :
    (∃ result members, writeVerifiedFtpReplicaToArchive routerLibrary exampleDestination routerCopy
        (.ok ()) (routerReplies [97]) "router/revision-1" 1000 = .ok (result, members) ∧
      Verified routerLibrary routerCopy (routerReplies [97]) "router/revision-1" members) ∧
    (∃ e, writeVerifiedFtpReplicaToArchive routerLibrary exampleDestination routerCopy
      (.ok ()) (routerReplies [98]) "router/revision-1" 1000 = .error e) ∧
    (∀ name file, (buildFtpRecoveryPackage routerLibrary (fun _ => []) noFaults routerRequest
        publishedBefore).2 name = some file →
      LeftByOthers routerRequest publishedBefore name file) := by
  have h := recovery_sound routerLibrary (fun _ => [])
  refine ⟨?_, ?_, ?_⟩
  · have hrun : (writeVerifiedFtpReplicaToArchive routerLibrary exampleDestination routerCopy
        (.ok ()) (routerReplies [97]) "router/revision-1" 1000).isOk = true := by decide +kernel
    cases hreturn : writeVerifiedFtpReplicaToArchive routerLibrary exampleDestination routerCopy
        (.ok ()) (routerReplies [97]) "router/revision-1" 1000 with
    | error e =>
      rw [hreturn] at hrun
      cases hrun
    | ok returned => exact ⟨returned.1, returned.2, rfl, (h.1 _ _ _ _ _ _ _ _ hreturn).1⟩
  · refine h.2.1 _ _ _ _ _ _ (routerTree [98]) (answers_routerReplies [98]) (Or.inr ⟨0, _, rfl, ?_⟩)
    rintro ⟨content, htree, hgenuine, _⟩
    have hcontent : content = [98] := (Option.some.inj htree).symm
    unfold Genuine at hgenuine
    rw [if_neg (by decide +kernel), hcontent] at hgenuine
    exact absurd hgenuine.2 (by decide +kernel)
  · exact h.2.2 noFaults routerRequest publishedBefore (.destination tokenConflict) rfl rfl
      (by decide) (by decide +kernel)

/-- The package of an earlier call with the same token stays when the call raises. -/
theorem package_under_token_stays : ¬ ∀ (lib : Library) (zip : Members → List UInt8)
    (faults : PackageFaults) (request : RecoveryRequest) (packages : Packages) (raised : Raised)
    (token : String), faults.unlinkTemporary = false → faults.unlinkPackage = false →
      request.packageToken = some token →
      (buildFtpRecoveryPackage lib zip faults request packages).1 = .error raised →
        (buildFtpRecoveryPackage lib zip faults request packages).2 (packageName token) = none := by
  intro h
  have hnone := h routerLibrary (fun _ => []) noFaults routerRequest publishedBefore
    (.destination tokenConflict) _ rfl rfl rfl (by decide +kernel)
  have hsome : ((buildFtpRecoveryPackage routerLibrary (fun _ => []) noFaults routerRequest
      publishedBefore).2 (packageName "0a1b2c3d-0000-4000-8000-000000000001")).isSome = true := by
    decide +kernel
  rw [hnone] at hsome
  cases hsome

end Packages

end ConfigBackup.RecoveryPackages
