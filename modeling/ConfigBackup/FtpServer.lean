import ConfigBackup.FileTrees
import ConfigBackup.IntegrityAudit
import ConfigBackup.Requests

/-!
A connection to an FTP server. Servers differ in their replies for a path that is not there;
a command may also fail for another reason, before or after its effect, but no such failure
says that a path is absent.
-/

namespace ConfigBackup.FtpServer

open FileTrees IntegrityAudit PosixPaths Replication Requests Text

section Replies

/-- `str(exc).strip().lower()`; the texts that are looked for are ASCII. -/
def loweredText (e : FtpError) : List Char := (strip isSpace e.message.toList).map Char.toLower

/-- `needle in text`. -/
def containsText (text : List Char) (needle : String) : Bool :=
  text.tails.any (fun rest => needle.toList.isPrefixOf rest)

/-- `is_missing_ftp_error`. -/
def isMissingFtpError (e : FtpError) : Bool :=
  "550".toList.isPrefixOf (loweredText e) &&
    ["not found", "no such", "does not exist", "cannot find", "no files", "empty"].any
      (containsText (loweredText e))

/-- `is_denied_ftp_error`. -/
def isDeniedFtpError (e : FtpError) : Bool :=
  ["permission", "denied", "not allowed", "access is denied", "access denied"].any
    (containsText (loweredText e))

end Replies

section Sites

/-- The name of an entry of a directory. -/
def ProperName (name : String) : Prop :=
  name ≠ "" ∧ name ≠ "." ∧ name ≠ ".." ∧ '/' ∉ name.toList

instance (name : String) : Decidable (ProperName name) := inferInstanceAs (Decidable (_ ∧ _))

/-- The files of a server; a path lists its names from the last one up to the root. The paths
at which a file has been replaced or taken away are kept. -/
structure Site where
  tree : FileTree String (List UInt8)
  proper : ∀ parent, ∀ name ∈ tree.names parent, ProperName name
  cwd : List String
  destroyed : List (List String)

/-- What lies at a path. -/
abbrev Site.get (site : Site) (path : List String) : Option (Entry (List UInt8)) :=
  site.tree.get path

theorem names_update {tree : FileTree String (List UInt8)} {name other : String}
    {parent path : List String} {value : Option (Entry (List UInt8))}
    (h : other ∈ (tree.update name parent value).names path) :
    other = name ∨ other ∈ tree.names path := by
  rw [FileTree.mem_names] at h ⊢
  by_cases hself : other :: path = name :: parent
  · exact Or.inl (List.cons.inj hself).1
  · rw [FileTree.get_update_of_ne hself] at h
    exact Or.inr h

/-- Put an entry at a path, or take it away, where the tree admits that. -/
def Site.put (site : Site) (name : String) (parent : List String)
    (value : Option (Entry (List UInt8))) : Site :=
  if h : ProperName name then
    { site with
      tree := site.tree.update name parent value
      proper := by
        intro path other hother
        rcases names_update hother with rfl | hother
        · exact h
        · exact site.proper path other hother
      destroyed :=
        match site.get (name :: parent) with
        | some (.file _) => (name :: parent) :: site.destroyed
        | _ => site.destroyed }
  else site

theorem Site.mem_names_put {site : Site} {name other : String} {parent path : List String}
    {value : Option (Entry (List UInt8))} (h : other ∈ (site.put name parent value).tree.names path) :
    other = name ∨ other ∈ site.tree.names path := by
  unfold Site.put at h
  split at h
  · exact names_update h
  · exact Or.inr h

theorem Site.get_put_of_ne {site : Site} {name : String} {parent path : List String}
    {value : Option (Entry (List UInt8))} (h : path ≠ name :: parent) :
    (site.put name parent value).get path = site.get path := by
  unfold Site.put
  split
  · exact FileTree.get_update_of_ne h
  · rfl

theorem Site.get_put_self {site : Site} {name : String} {parent : List String}
    {value : Option (Entry (List UInt8))} (hname : ProperName name)
    (h : site.tree.Admits name parent value) :
    (site.put name parent value).get (name :: parent) = value := by
  unfold Site.put
  rw [dif_pos hname]
  exact FileTree.get_update_self h

theorem Site.properName {site : Site} {name : String} {parent : List String}
    (h : site.get (name :: parent) ≠ none) : ProperName name :=
  site.proper parent name ((site.tree.mem_names name parent).mpr (Option.isSome_iff_ne_none.mpr h))

/-- Only the replacement or the removal of a file is recorded. -/
theorem Site.mem_destroyed_put {site : Site} {name : String} {parent path : List String}
    {value : Option (Entry (List UInt8))} (h : path ∈ (site.put name parent value).destroyed) :
    path ∈ site.destroyed ∨
      path = name :: parent ∧ ∃ content, site.get (name :: parent) = some (.file content) := by
  unfold Site.put at h
  split at h
  · dsimp only at h
    split at h
    · rename_i content hentry
      rcases List.mem_cons.mp h with rfl | hmem
      · exact Or.inr ⟨rfl, content, hentry⟩
      · exact Or.inl hmem
    · exact Or.inl h
  · exact Or.inl h

theorem Site.destroyed_put_mono {site : Site} {name : String} {parent path : List String}
    {value : Option (Entry (List UInt8))} (h : path ∈ site.destroyed) :
    path ∈ (site.put name parent value).destroyed := by
  unfold Site.put
  split
  · dsimp only
    split
    · exact List.mem_cons_of_mem _ h
    · exact h
  · exact h

theorem Site.destroyed_put_self {site : Site} {name : String} {parent : List String}
    {value : Option (Entry (List UInt8))} {content : List UInt8}
    (h : site.get (name :: parent) = some (.file content)) :
    name :: parent ∈ (site.put name parent value).destroyed := by
  have hname : ProperName name := Site.properName (by rw [h]; simp)
  unfold Site.put
  rw [dif_pos hname]
  simp only [h]
  exact List.mem_cons_self

theorem Site.put_of_not_proper {site : Site} {name : String} {parent : List String}
    {value : Option (Entry (List UInt8))} (h : ¬ ProperName name) :
    site.put name parent value = site := dif_neg h

/-- What is put somewhere is there, or could not be put there. -/
theorem Site.get_put (site : Site) (name : String) (parent : List String)
    (value : Option (Entry (List UInt8))) :
    (site.put name parent value).get (name :: parent) = value ∨
      (site.put name parent value).get (name :: parent) = site.get (name :: parent) := by
  unfold Site.put
  split
  · by_cases hadmits : site.tree.Admits name parent value
    · exact Or.inl (FileTree.get_update_self hadmits)
    · exact Or.inr (congrArg (fun tree => tree.get (name :: parent))
        (FileTree.update_of_not_admits hadmits))
  · exact Or.inr rfl

theorem Site.get_put_none (site : Site) (name : String) (parent : List String) :
    (site.put name parent none).get (name :: parent) = none ∨
      (site.put name parent none).get (name :: parent) = site.get (name :: parent) :=
  site.get_put name parent none

/-- A server without files. -/
def emptySite : Site := ⟨.empty, fun _ _ => nofun, [], []⟩

/-- A server with the directories of a path. -/
def siteWith : List String → Site
  | [] => emptySite
  | name :: parent => (siteWith parent).put name parent (some .directory)

theorem get_siteWith {path : List String} (h : ∀ name ∈ path, ProperName name) :
    (siteWith path).get path = some .directory ∧
      ∀ longer : List String, path.length < longer.length → (siteWith path).get longer = none := by
  induction path with
  | nil =>
    refine ⟨FileTree.root _, fun longer hlonger => if_neg ?_⟩
    rintro rfl
    exact absurd hlonger (Nat.lt_irrefl _)
  | cons name parent ih =>
    have hparent := ih fun other hother => h other (List.mem_cons_of_mem _ hother)
    refine ⟨Site.get_put_self (h name List.mem_cons_self) ⟨hparent.1, Or.inl rfl⟩, ?_⟩
    intro longer hlonger
    have hne : longer ≠ name :: parent := by
      rintro rfl
      exact absurd hlonger (Nat.lt_irrefl _)
    rw [siteWith, Site.get_put_of_ne hne]
    refine hparent.2 longer ?_
    rw [List.length_cons] at hlonger
    omega

end Sites

/-- The replies of a server to a path that is not there, to a command that does not suit what
is there, and to the listing of an empty directory or of an absent path. -/
structure Dialect where
  absent : FtpError
  refused : FtpError
  emptyListing : Option FtpError
  absentListing : Option FtpError
  overwrites : Bool

/-- What happens to the commands of a connection, and the errors of those that fail. -/
structure Connection where
  dialect : Dialect
  fates : ℕ → Fate
  failures : ℕ → FtpError
  honest : ∀ n, isMissingFtpError (failures n) = false

/-- An error of the client, one with a code of its own, or another exception. -/
inductive Failure
  | ftp (e : FtpError)
  | destination (e : DestinationError)
  | other
deriving DecidableEq, Repr

abbrev Ftp (α : Type) := Requests Site Failure α

section Commands

variable (conn : Connection) {α : Type}

/-- Send a command; its error is one of the client. -/
def command (f : Site → Except FtpError α × Site) : Ftp α := fun c =>
  request conn.fates (Failure.ftp (conn.failures c.passed.length))
    (fun site => ((f site).1.mapError Failure.ftp, (f site).2)) c

def cwd (path : List String) : Ftp Unit :=
  command conn fun site =>
    match site.get path with
    | some .directory => (.ok (), { site with cwd := path })
    | some (.file _) => (.error conn.dialect.refused, site)
    | none => (.error conn.dialect.absent, site)

def listing (names : List String) : Except FtpError (List String) :=
  match names, conn.dialect.emptyListing with
  | [], some e => .error e
  | _, _ => .ok names

/-- `nlst()` of the current directory. -/
def nlst : Ftp (List String) := command conn fun site =>
  (listing conn (site.tree.names site.cwd), site)

/-- `nlst(path)`. -/
def nlstPath (path : List String) : Ftp (List String) := command conn fun site =>
  (match site.get path, conn.dialect.absentListing with
    | some .directory, _ => listing conn (site.tree.names path)
    | some (.file _), _ => .ok (path.take 1)
    | none, some e => .error e
    | none, none => .ok [], site)

def delete (name : String) (parent : List String) : Ftp Unit := command conn fun site =>
  match site.get (name :: parent) with
  | some (.file _) => (.ok (), site.put name parent none)
  | some .directory => (.error conn.dialect.refused, site)
  | none => (.error conn.dialect.absent, site)

def rmd (path : List String) : Ftp Unit := command conn fun site =>
  match path, site.get path with
  | name :: parent, some .directory =>
    if site.tree.names path = [] then (.ok (), site.put name parent none)
    else (.error conn.dialect.refused, site)
  | _, some _ => (.error conn.dialect.refused, site)
  | _, none => (.error conn.dialect.absent, site)

def mkd (name : String) (parent : List String) : Ftp Unit := command conn fun site =>
  match site.get parent, site.get (name :: parent) with
  | some .directory, none =>
    if ProperName name then (.ok (), site.put name parent (some .directory))
    else (.error conn.dialect.refused, site)
  | some .directory, some _ => (.error conn.dialect.refused, site)
  | _, _ => (.error conn.dialect.absent, site)

/-- One write of an upload: the content replaces the file. -/
def write (name : String) (parent : List String) (content : List UInt8) : Ftp Unit :=
  command conn fun site =>
    match site.get parent, site.get (name :: parent) with
    | some .directory, some .directory => (.error conn.dialect.refused, site)
    | some .directory, _ =>
      if ProperName name then (.ok (), site.put name parent (some (.file content)))
      else (.error conn.dialect.refused, site)
    | _, _ => (.error conn.dialect.absent, site)

/-- `storbinary`: an upload that fails may leave a part of the content. -/
def stor (residue : List UInt8 → List UInt8) (name : String) (parent : List String)
    (content : List UInt8) : Ftp Unit := do
  write conn name parent (residue content)
  write conn name parent content

/-- The content of a file. -/
def contentOf (site : Site) (path : List String) : Except FtpError (List UInt8) :=
  match site.get path with
  | some (.file content) => .ok content
  | some .directory => .error conn.dialect.refused
  | none => .error conn.dialect.absent

def size (path : List String) : Ftp (Option ℤ) := command conn fun site =>
  ((contentOf conn site path).map fun content => some (content.length : ℤ), site)

def retr (path : List String) : Ftp (List UInt8) := command conn fun site =>
  (contentOf conn site path, site)

/-- A file that exists under the new name is replaced by some servers. -/
def rename (fromName toName : String) (parent : List String) : Ftp Unit := command conn fun site =>
  match site.get (fromName :: parent), site.get (toName :: parent) with
  | none, _ => (.error conn.dialect.absent, site)
  | some .directory, _ | _, some .directory => (.error conn.dialect.refused, site)
  | some (.file content), target =>
    if fromName = toName then (.ok (), site)
    else if (target.isSome && !conn.dialect.overwrites) || !decide (ProperName toName) then
      (.error conn.dialect.refused, site)
    else (.ok (), (site.put toName parent (some (.file content))).put fromName parent none)

/-- `TYPE I`. -/
def typeImage : Ftp Unit := command conn fun site => (.ok (), site)

end Commands

section Rules

variable {conn : Connection} {α : Type} {inv pre : Site → Prop} {post : α → Site → Prop}
  {raised : Failure → Site → Prop}

/-- A command is judged by its reply, and by its failure with or without its effect. -/
theorem runs_command {f : Site → Except FtpError α × Site} (hinv : ∀ w, pre w → inv w)
    (hlost : ∀ n w, conn.fates n ≠ .answered → pre w → raised (.ftp (conn.failures n)) w)
    (hunanswered : ∀ n w, conn.fates n ≠ .answered → pre w →
      raised (.ftp (conn.failures n)) (f w).2)
    (hok : ∀ w a, pre w → (f w).1 = .ok a → post a (f w).2)
    (herror : ∀ w e, pre w → (f w).1 = .error e → raised (.ftp e) (f w).2) :
    Runs inv pre (command conn f) post raised := by
  intro c hpassed hc
  have hnext := passed_snoc hpassed (hinv _ hc)
  unfold command request
  cases hfate : conn.fates c.passed.length with
  | lost => exact ⟨hnext, hlost _ _ (by simp [hfate]) hc⟩
  | unanswered => exact ⟨hnext, hunanswered _ _ (by simp [hfate]) hc⟩
  | answered =>
    dsimp only
    cases hreply : (f c.world).1 with
    | ok a => exact And.intro hnext (hok _ _ hc hreply)
    | error e => exact And.intro hnext (herror _ _ hc hreply)

/-- A command whose effect keeps an assertion may fail at any point. -/
theorem runs_command_keeping {f : Site → Except FtpError α × Site} {p : Site → Prop}
    (hinv : ∀ w, pre w → inv w) (hpre : ∀ w, pre w → p w) (hkeep : ∀ w, pre w → p (f w).2)
    (hok : ∀ w a, pre w → (f w).1 = .ok a → post a (f w).2) :
    Runs inv pre (command conn f) post (fun _ w => p w) :=
  runs_command hinv (fun _ w _ hw => hpre w hw) (fun _ w _ hw => hkeep w hw) hok
    fun w _ hw _ => hkeep w hw

theorem runs_command_invariant {f : Site → Except FtpError α × Site} {p : Site → Prop}
    (hinv : ∀ w, p w → inv w) (hkeep : ∀ w, p w → p (f w).2) :
    Runs inv p (command conn f) (fun _ w => p w) (fun _ w => p w) :=
  runs_command_keeping hinv (fun _ hw => hw) hkeep fun w _ hw _ => hkeep w hw

end Rules

end ConfigBackup.FtpServer
