import ConfigBackup.FtpServer

/-!
What a client may conclude from listings. Servers disagree on the reply to an absent path, so
that a path counts as absent only where a listing of the nearest directory above it does not
name the next entry.
-/

namespace ConfigBackup.FtpListings

open FileTrees FtpServer IntegrityAudit PosixPaths RemoteFileNames Replication Requests

section Names

/-- `validate_direct_filename`. -/
def validateDirectFilename (filename : String) : Except DestinationError Unit :=
  if filename = "" ∨ pureName filename.toList ≠ filename.toList ∨ filename = "." ∨
      filename = ".." ∨ '\\' ∈ filename.toList ∨ '\x00' ∈ filename.toList ∨
      filename.toList.any (fun c => decide (c.val < 32)) then
    .error ⟨"DELETE_FILESET_INVALID", "An FTP revision filename is not safe to delete."⟩
  else .ok ()

def unsafeListing (safeMessage : String) : DestinationError :=
  ⟨"DESTINATION_DIRECTORY_UNSAFE", safeMessage⟩

/-- The name that an entry of a listing gives, if it gives one. -/
def listedName (directory : List String) (entry : String) :
    Except DestinationError (Option String) :=
  let parts := pureParts entry.toList
  if entry = "" ∨ '\\' ∈ entry.toList ∨ '\x00' ∈ entry.toList ∨
      entry.toList.any (fun c => decide (c.val < 32)) then
    .error (unsafeListing "The FTP revision directory returned an unsafe entry.")
  else if rootOf entry.toList ≠ [] ∧
      parts.dropLast ≠ ['/'] :: directory.reverse.map String.toList then
    .error (unsafeListing "The FTP revision directory returned an unexpected path.")
  else if rootOf entry.toList = [] ∧ parts.length ≠ 1 then
    .error (unsafeListing "The FTP revision directory returned a nested path.")
  else
    let name := String.ofList (pureName entry.toList)
    if name = "" ∨ name = "." ∨ name = ".." then .ok none
    else do
      validateDirectFilename name
      pure (some name)

/-- The names of a listing, which one unsafe entry spoils. -/
def listedNames (directory : List String) : List String → Except DestinationError (List String)
  | [] => .ok []
  | entry :: rest => do
    let name ← listedName directory entry
    let names ← listedNames directory rest
    pure (name.toList ++ names)

end Names

section Listings

variable (conn : Connection)

/-- `_directory_absent_from_parent_listing`. -/
def absentFromParentListing : List String → Ftp Bool
  | [] => pure false
  | child :: parent => do
    let reply ← attempt (do
      cwd conn parent
      nlst conn)
    match reply with
    | .ok entries =>
      match listedNames parent entries with
      | .ok names => pure (!names.contains child)
      | .error _ => pure false
    | .error (.ftp e) =>
      if e.kind = .perm ∧ isDeniedFtpError e = false then absentFromParentListing parent
      else pure false
    | .error _ => pure false

def unreadableDirectory : Failure :=
  .destination ⟨"DESTINATION_DIRECTORY_UNREADABLE",
    "The FTP revision directory could not be inspected safely."⟩

/-- `_list_revision_directory`, where an absent directory is no error. -/
def listRevisionDirectory (path : List String) : Ftp (Option (List String)) := do
  match ← attempt (cwd conn path) with
  | .error (.ftp e) =>
    if e.kind ≠ .perm then throw (.ftp e)
    else if isMissingFtpError e then pure none
    else if isDeniedFtpError e then throw unreadableDirectory
    else if ← absentFromParentListing conn path then pure none
    else throw unreadableDirectory
  | .error e => throw e
  | .ok () =>
    match ← attempt (nlst conn) with
    | .error (.ftp e) =>
      if e.kind ≠ .perm then throw (.ftp e)
      else if isMissingFtpError e then pure (some [])
      else throw unreadableDirectory
    | .error e => throw e
    | .ok entries =>
      match listedNames path entries with
      | .ok names => pure (some names)
      | .error e => throw (.destination e)

/-- `_remote_exists`. -/
def remoteExists (path : List String) : Ftp Bool := do
  match ← attempt (nlstPath conn path) with
  | .ok entries => pure !entries.isEmpty
  | .error (.ftp e) =>
    if isMissingFtpError e then pure false
    else if isDeniedFtpError e then
      throw (.destination ⟨"DESTINATION_PATH_UNREADABLE",
        "An existing FTP path could not be inspected safely."⟩)
    else if ← absentFromParentListing conn path then pure false
    else throw (.destination ⟨"DESTINATION_PATH_UNREADABLE",
      "An existing FTP path could not be inspected safely."⟩)
  | .error e => throw e

end Listings

section Parsing

/-- A name of which the code makes a direct child. -/
def SafeName (name : String) : Prop :=
  '\\' ∉ name.toList ∧ '\x00' ∉ name.toList ∧ ∀ c ∈ name.toList, 32 ≤ c.val

instance (name : String) : Decidable (SafeName name) := inferInstanceAs (Decidable (_ ∧ _))

theorem safeName_of_valid {name : String} (h : validateDirectFilename name = .ok ()) :
    SafeName name := by
  unfold validateDirectFilename at h
  split at h
  · cases h
  · rename_i hvalid
    push Not at hvalid
    obtain ⟨-, -, -, -, hback, hnul, hlow⟩ := hvalid
    refine ⟨hback, hnul, fun c hc => ?_⟩
    have hfalse := hlow
    rw [Ne, List.any_eq_true] at hfalse
    exact UInt32.not_lt.mp fun hlt => hfalse ⟨c, hc, decide_eq_true hlt⟩

theorem pureParts_properName {name : String} (h : ProperName name) :
    rootOf name.toList = [] ∧ pureParts name.toList = [name.toList] ∧
      pureName name.toList = name.toList := by
  obtain ⟨hempty, hdot, -, hslash⟩ := h
  have hnil : name.toList ≠ [] := by
    rwa [Ne, String.toList_eq_nil_iff]
  have hhead : name.toList.head? ≠ some '/' :=
    fun hhead => hslash (List.mem_of_mem_head? hhead)
  have hroot : rootOf name.toList = [] := by
    unfold rootOf
    rw [if_neg hhead]
  have hcomponents : components name.toList = [name.toList] := by
    have hpart : name.toList ≠ ['.'] := fun hpart => hdot (String.toList_injective hpart)
    unfold components
    rw [List.splitOn_eq_singleton hslash, List.filter_cons_of_pos (by simp [hnil, hpart])]
    rfl
  refine ⟨hroot, ?_, ?_⟩
  · unfold pureParts
    rw [if_pos hroot, hcomponents]
  · unfold pureName
    rw [hcomponents]
    rfl

/-- An entry of a directory is listed under its own name, or spoils the listing. -/
theorem listedName_eq {directory : List String} {name : String} (h : ProperName name) :
    (SafeName name → listedName directory name = .ok (some name)) ∧
      ∀ found, listedName directory name = .ok found → found = some name := by
  obtain ⟨hroot, hparts, hname⟩ := pureParts_properName h
  have hlisted : ¬ (name = "" ∨ '\\' ∈ name.toList ∨ '\x00' ∈ name.toList ∨
      name.toList.any (fun c => decide (c.val < 32)) = true) →
      listedName directory name = .ok (some name) := by
    intro hsafe
    have hvalid : ¬ (name = "" ∨ pureName name.toList ≠ name.toList ∨ name = "." ∨ name = ".." ∨
        '\\' ∈ name.toList ∨ '\x00' ∈ name.toList ∨
        name.toList.any (fun c => decide (c.val < 32)) = true) := by
      rintro (heq | heq | heq | heq | heq)
      · exact h.1 heq
      · exact heq hname
      · exact h.2.1 heq
      · exact h.2.2.1 heq
      · exact hsafe (Or.inr heq)
    have hspecial : ¬ (name = "" ∨ name = "." ∨ name = "..") := by
      rintro (heq | heq | heq)
      · exact h.1 heq
      · exact h.2.1 heq
      · exact h.2.2.1 heq
    unfold listedName validateDirectFilename
    dsimp only
    rw [if_neg hsafe, if_neg (by simp [hroot]), if_neg (by simp [hparts]), hname,
      String.ofList_toList, if_neg hspecial, if_neg hvalid]
    rfl
  constructor
  · intro hsafe
    refine hlisted ?_
    rintro (heq | hback | hnul | hany)
    · exact h.1 heq
    · exact hsafe.1 hback
    · exact hsafe.2.1 hnul
    · obtain ⟨c, hc, hlow⟩ := List.any_eq_true.mp hany
      have hge := hsafe.2.2 c hc
      have hlt := of_decide_eq_true hlow
      exact absurd hlt (UInt32.not_lt.mpr hge)
  · intro found hfound
    by_cases hbad : name = "" ∨ '\\' ∈ name.toList ∨ '\x00' ∈ name.toList ∨
        name.toList.any (fun c => decide (c.val < 32)) = true
    · unfold listedName at hfound
      dsimp only at hfound
      rw [if_pos hbad] at hfound
      cases hfound
    · rw [hlisted hbad] at hfound
      exact (Except.ok.inj hfound).symm

theorem listedNames_eq (directory : List String) {names : List String}
    (h : ∀ name ∈ names, ProperName name) :
    ((∀ name ∈ names, SafeName name) → listedNames directory names = .ok names) ∧
      ∀ found, listedNames directory names = .ok found → found = names := by
  induction names with
  | nil =>
    refine ⟨fun _ => rfl, fun found hfound => ?_⟩
    exact (Except.ok.inj hfound).symm
  | cons name names ih =>
    have hname := @listedName_eq directory name (h name List.mem_cons_self)
    have hrest := ih fun other hother => h other (List.mem_cons_of_mem _ hother)
    constructor
    · intro hsafe
      unfold listedNames
      rw [hname.1 (hsafe name List.mem_cons_self),
        hrest.1 fun other hother => hsafe other (List.mem_cons_of_mem _ hother)]
      rfl
    · intro found hfound
      unfold listedNames at hfound
      cases hfirst : listedName directory name with
      | error e =>
        rw [hfirst] at hfound
        cases hfound
      | ok first =>
        cases htail : listedNames directory names with
        | error e =>
          rw [hfirst, htail] at hfound
          cases hfound
        | ok tail =>
          rw [hfirst, htail] at hfound
          obtain rfl := hname.2 first hfirst
          obtain rfl := hrest.2 tail htail
          exact (Except.ok.inj hfound).symm

end Parsing

section Conclusions

variable {conn : Connection} {inv p : Site → Prop} {path : List String}

/-- A predicate on the files of a server. -/
def Stable (p : Site → Prop) : Prop := ∀ w path, p w → p { w with cwd := path }

/-- Every command is answered. -/
def Reliable (conn : Connection) : Prop := ∀ n, conn.fates n = .answered

/-- What a failed change of directory says. -/
structure CwdFailed (conn : Connection) (path : List String) (e : FtpError) (w : Site) : Prop where
  missing : isMissingFtpError e = true → w.get path ≠ some .directory
  reliable : Reliable conn → w.get path ≠ some .directory ∧
    (w.get path = none → e = conn.dialect.absent)

theorem runs_cwd (hinv : ∀ w, p w → inv w) (hstable : Stable p) :
    Runs inv p (cwd conn path) (fun _ w => w.cwd = path ∧ w.get path = some .directory ∧ p w)
      (fun e w => ∃ e', e = .ftp e' ∧ CwdFailed conn path e' w ∧ p w) := by
  have hfailed : ∀ n w, conn.fates n ≠ .answered → CwdFailed conn path (conn.failures n) w := by
    intro n w hfate
    exact ⟨fun hmissing => absurd hmissing (by simp [conn.honest n]),
      fun hreliable => absurd (hreliable n) hfate⟩
  refine runs_command hinv ?_ ?_ ?_ ?_
  · intro n w hfate hw
    exact ⟨_, rfl, hfailed n w hfate, hw⟩
  · intro n w hfate hw
    refine ⟨_, rfl, hfailed n _ hfate, ?_⟩
    split
    · exact hstable w path hw
    · exact hw
    · exact hw
  · intro w a hw hok
    split at hok
    · rename_i hentry
      exact ⟨rfl, hentry, hstable w path hw⟩
    · cases hok
    · cases hok
  · intro w e hw herror
    split at herror
    · cases herror
    · rename_i hentry
      exact ⟨e, rfl, ⟨by simp [hentry], by simp [hentry]⟩, hw⟩
    · rename_i hentry
      exact ⟨e, rfl, ⟨by simp [hentry], by simpa [hentry] using fun _ => (Except.error.inj herror).symm⟩,
        hw⟩

/-- What a failed listing says. -/
structure NlstFailed (conn : Connection) (path : List String) (e : FtpError) (w : Site) :
    Prop where
  missing : isMissingFtpError e = true → w.tree.names path = []
  reliable : Reliable conn → w.tree.names path = [] ∧ conn.dialect.emptyListing = some e

theorem runs_nlst (hinv : ∀ w, p w → inv w) :
    Runs inv (fun w => w.cwd = path ∧ w.get path = some .directory ∧ p w) (nlst conn)
      (fun names w => names = w.tree.names path ∧ w.get path = some .directory ∧ p w)
      (fun e w => ∃ e', e = .ftp e' ∧ w.get path = some .directory ∧ NlstFailed conn path e' w ∧
        p w) := by
  have hfailed : ∀ n w, conn.fates n ≠ .answered → NlstFailed conn path (conn.failures n) w := by
    intro n w hfate
    exact ⟨fun hmissing => absurd hmissing (by simp [conn.honest n]),
      fun hreliable => absurd (hreliable n) hfate⟩
  refine runs_command (fun w hw => hinv w hw.2.2) ?_ ?_ ?_ ?_
  · rintro n w hfate ⟨-, hentry, hw⟩
    exact ⟨_, rfl, hentry, hfailed n w hfate, hw⟩
  · rintro n w hfate ⟨-, hentry, hw⟩
    exact ⟨_, rfl, hentry, hfailed n w hfate, hw⟩
  · rintro w names ⟨rfl, hentry, hw⟩ hok
    unfold listing at hok
    split at hok
    · cases hok
    · exact ⟨(Except.ok.inj hok).symm, hentry, hw⟩
  · rintro w e ⟨rfl, hentry, hw⟩ herror
    unfold listing at herror
    split at herror
    · rename_i hnames hempty
      obtain rfl := Except.error.inj herror
      exact ⟨_, rfl, hentry, ⟨fun _ => hnames, fun _ => ⟨hnames, hempty⟩⟩, hw⟩
    · cases herror

/-- The listing of the parent shows that an entry is not there. -/
structure Provable (conn : Connection) (path : List String) (w : Site) : Prop where
  absent : w.get path = none
  parent : w.get path.tail = some .directory
  names : ∀ name ∈ w.tree.names path.tail, SafeName name
  listed : conn.dialect.emptyListing = none

theorem runs_absentFromParentListing (hinv : ∀ w, p w → inv w) (hstable : Stable p)
    (path : List String) :
    Runs inv p (absentFromParentListing conn path)
      (fun r w => (r = true → w.get path = none) ∧
        (Reliable conn → Provable conn path w → r = true) ∧ p w)
      (fun _ _ => False) := by
  induction path generalizing p with
  | nil =>
    refine runs_pure fun w hw => ⟨nofun, fun _ hproof => ?_, hw⟩
    have habsent := hproof.absent
    rw [Site.get, w.tree.root] at habsent
    cases habsent
  | cons child parent ih =>
    unfold absentFromParentListing
    have hlisting : Runs inv p (do cwd conn parent; nlst conn)
        (fun names w => names = w.tree.names parent ∧ w.get parent = some .directory ∧ p w)
        (fun e w => ∃ e', e = .ftp e' ∧ (Reliable conn → w.get parent = some .directory →
          conn.dialect.emptyListing = some e') ∧ p w) := by
      refine Runs.bind ((runs_cwd hinv hstable).mono (fun _ _ hw => hw) ?_) fun _ =>
        (runs_nlst hinv).mono (fun _ _ hw => hw) ?_
      · rintro _ w ⟨e, rfl, hfailed, hw⟩
        exact ⟨e, rfl, fun hreliable hentry => absurd hentry (hfailed.reliable hreliable).1, hw⟩
      · rintro _ w ⟨e, rfl, -, hfailed, hw⟩
        exact ⟨e, rfl, fun hreliable _ => (hfailed.reliable hreliable).2, hw⟩
    refine Runs.bind hlisting.attempt fun reply => ?_
    rcases reply with (e | e | _) | entries
    · -- a refused parent is looked up in the directory above it
      dsimp only
      have hpre : ∀ w, Attempted (fun names w => names = w.tree.names parent ∧
            w.get parent = some .directory ∧ p w)
          (fun e w => ∃ e', e = Failure.ftp e' ∧ (Reliable conn →
            w.get parent = some .directory → conn.dialect.emptyListing = some e') ∧ p w)
          (.error (.ftp e)) w → p w ∧ (Reliable conn → ¬ Provable conn (child :: parent) w) := by
        rintro w ⟨e', he, hempty, hw⟩
        refine ⟨hw, fun hreliable hproof => ?_⟩
        have hsome := hempty hreliable hproof.parent
        rw [hproof.listed] at hsome
        cases hsome
      split
      · have hrest := @ih (fun w => p w ∧ (Reliable conn → ¬ Provable conn (child :: parent) w))
          (fun w hw => hinv w hw.1) fun w other hw => ⟨hstable w other hw.1, fun hreliable hproof =>
            hw.2 hreliable ⟨hproof.absent, hproof.parent, hproof.names, hproof.listed⟩⟩
        refine (hrest.weaken hpre).mono ?_ (fun _ _ h => h)
        rintro r w ⟨habsent, -, hw, hproof⟩
        refine ⟨fun hr => ?_, fun hreliable hprovable => absurd hprovable (hproof hreliable), hw⟩
        have hparent : w.tree.get parent = none := habsent hr
        exact FileTree.get_cons_of_ne_directory (by rw [hparent]; simp)
      · exact runs_pure fun w hw =>
          ⟨nofun, fun hreliable hproof => absurd hproof ((hpre w hw).2 hreliable), (hpre w hw).1⟩
    · exact runs_pure fun w hw => by
        obtain ⟨e', he, -⟩ := hw
        cases he
    · exact runs_pure fun w hw => by
        obtain ⟨e', he, -⟩ := hw
        cases he
    · dsimp only
      cases hnames : listedNames parent entries with
      | error e =>
        refine runs_pure fun w hw => ⟨nofun, fun _ hproof => ?_, hw.2.2⟩
        obtain rfl : entries = w.tree.names parent := hw.1
        have hlisted := (listedNames_eq parent (w.proper parent)).1 hproof.names
        rw [hnames] at hlisted
        cases hlisted
      | ok names =>
        refine runs_pure fun w hw => ?_
        obtain rfl : entries = w.tree.names parent := hw.1
        obtain rfl := (listedNames_eq parent (w.proper parent)).2 names hnames
        refine ⟨fun hr => ?_, fun _ hproof => ?_, hw.2.2⟩
        · refine FileTree.get_of_not_mem_names ?_
          simpa using hr
        · have hnone : child ∉ w.tree.names parent := by
            rw [w.tree.mem_names]
            have habsent : w.tree.get (child :: parent) = none := hproof.absent
            simp [habsent]
          simpa using hnone

/-- What an inspection of a directory finds. -/
def Listed (conn : Connection) (path : List String) : Option (List String) → Site → Prop
  | none, w => w.get path ≠ some .directory ∧
      (Reliable conn → w.get path = none → conn.dialect.absent.kind = .perm)
  | some names, w => w.get path = some .directory ∧ names = w.tree.names path

/-- An entry that is not listed is not there. -/
theorem Listed.get_eq_none {entries : Option (List String)} {w : Site} {name : String}
    (h : Listed conn path entries w) (hname : name ∉ entries.getD []) :
    w.get (name :: path) = none := by
  cases entries with
  | none => exact FileTree.get_cons_of_ne_directory h.1
  | some entries =>
    obtain ⟨-, rfl⟩ := h
    exact FileTree.get_of_not_mem_names hname

theorem Listed.get_ne_none {entries : Option (List String)} {w : Site} {name : String}
    (h : Listed conn path entries w) (hname : name ∈ entries.getD []) :
    w.get (name :: path) ≠ none := by
  cases entries with
  | none => exact absurd hname List.not_mem_nil
  | some entries =>
    obtain ⟨-, rfl⟩ := h
    exact Option.isSome_iff_ne_none.mp ((w.tree.mem_names name path).mp hname)

/-- A directory that can be listed, or whose absence is accepted. -/
def Inspectable (conn : Connection) (path : List String) (w : Site) : Prop :=
  (w.get path = some .directory ∧ (∀ name ∈ w.tree.names path, SafeName name) ∧
    conn.dialect.emptyListing = none) ∨
  (Provable conn path w ∧ conn.dialect.absent.kind = .perm ∧
    isDeniedFtpError conn.dialect.absent = false)

theorem runs_listRevisionDirectory (hinv : ∀ w, p w → inv w) (hstable : Stable p)
    (path : List String) :
    Runs inv p (listRevisionDirectory conn path) (fun r w => Listed conn path r w ∧ p w)
      (fun _ w => (Reliable conn → ¬ Inspectable conn path w) ∧ p w) := by
  unfold listRevisionDirectory
  refine Runs.bind (runs_cwd hinv hstable).attempt fun reply => ?_
  rcases reply with (e | e | _) | -
  · dsimp only
    have hpre : ∀ w, Attempted (fun _ w => w.cwd = path ∧ w.get path = some .directory ∧ p w)
        (fun e w => ∃ e', e = Failure.ftp e' ∧ CwdFailed conn path e' w ∧ p w)
        (Except.error (Failure.ftp e) : Except Failure Unit) w → CwdFailed conn path e w ∧ p w := by
      rintro w ⟨e', he, hfailed, hw⟩
      obtain rfl := Failure.ftp.inj he
      exact ⟨hfailed, hw⟩
    -- a reply that is not accepted is not the reply to an absent path that would be
    have hobstructed : ∀ w, CwdFailed conn path e w → (Provable conn path w →
        conn.dialect.absent.kind = .perm → isDeniedFtpError conn.dialect.absent = false →
        e = conn.dialect.absent → False) → Reliable conn → ¬ Inspectable conn path w := by
      intro w hfailed hcontra hreliable hinspect
      obtain ⟨hentry, habsent⟩ := hfailed.reliable hreliable
      rcases hinspect with hdirectory | ⟨hproof, hkind, hdenied⟩
      · exact hentry hdirectory.1
      · exact hcontra hproof hkind hdenied (habsent hproof.absent)
    split
    · rename_i hkind
      refine runs_throw fun w hw => ?_
      obtain ⟨hfailed, hp⟩ := hpre w hw
      refine ⟨hobstructed w hfailed fun _ hperm _ he => hkind ?_, hp⟩
      rw [he]
      exact hperm
    · rename_i hkind
      rw [not_not] at hkind
      have haccepted : ∀ w, CwdFailed conn path e w → Reliable conn → w.get path = none →
          conn.dialect.absent.kind = .perm := by
        intro w hfailed hreliable hnone
        rw [← (hfailed.reliable hreliable).2 hnone]
        exact hkind
      split
      · rename_i hmissing
        refine runs_pure fun w hw => ?_
        obtain ⟨hfailed, hp⟩ := hpre w hw
        exact ⟨⟨hfailed.missing hmissing, haccepted w hfailed⟩, hp⟩
      · split
        · rename_i hdenied
          refine runs_throw fun w hw => ?_
          obtain ⟨hfailed, hp⟩ := hpre w hw
          refine ⟨hobstructed w hfailed fun _ _ hallowed he => ?_, hp⟩
          rw [he, hallowed] at hdenied
          cases hdenied
        · have hproof := @runs_absentFromParentListing conn inv
            (fun w => CwdFailed conn path e w ∧ p w) (fun w hw => hinv w hw.2)
            (fun w other hw => ⟨⟨hw.1.missing, hw.1.reliable⟩, hstable w other hw.2⟩) path
          refine Runs.bind ((hproof.weaken hpre).mono (fun _ _ hw => hw) nofun) fun proved => ?_
          split
          · refine runs_pure fun w ⟨habsent, _, hfailed, hp⟩ => ⟨⟨?_, haccepted w hfailed⟩, hp⟩
            rw [habsent ‹_›]
            simp
          · rename_i hproved
            refine runs_throw fun w ⟨_, hprovable, hfailed, hp⟩ => ⟨fun hreliable => ?_, hp⟩
            exact hobstructed w hfailed (fun hproof _ _ _ => hproved (hprovable hreliable hproof))
              hreliable
  · refine runs_throw fun w hw => ?_
    obtain ⟨e', he, -⟩ := hw
    cases he
  · refine runs_throw fun w hw => ?_
    obtain ⟨e', he, -⟩ := hw
    cases he
  · dsimp only
    refine Runs.bind (runs_nlst hinv).attempt fun reply => ?_
    rcases reply with (e | e | _) | entries
    · dsimp only
      have hpre : ∀ w, Attempted (fun names w => names = w.tree.names path ∧
            w.get path = some .directory ∧ p w)
          (fun e w => ∃ e', e = Failure.ftp e' ∧ w.get path = some .directory ∧
            NlstFailed conn path e' w ∧ p w)
          (Except.error (Failure.ftp e)) w →
          w.get path = some .directory ∧ NlstFailed conn path e w ∧ p w := by
        rintro w ⟨e', he, hentry, hfailed, hw⟩
        obtain rfl := Failure.ftp.inj he
        exact ⟨hentry, hfailed, hw⟩
      have hobstructed : ∀ w, w.get path = some .directory → NlstFailed conn path e w →
          Reliable conn → ¬ Inspectable conn path w := by
        rintro w hentry hfailed hreliable (⟨-, -, hlisted⟩ | ⟨hproof, -⟩)
        · rw [(hfailed.reliable hreliable).2] at hlisted
          cases hlisted
        · rw [hproof.absent] at hentry
          cases hentry
      split
      · refine runs_throw fun w hw => ?_
        obtain ⟨hentry, hfailed, hp⟩ := hpre w hw
        exact ⟨hobstructed w hentry hfailed, hp⟩
      · split
        · rename_i hmissing
          refine runs_pure fun w hw => ?_
          obtain ⟨hentry, hfailed, hp⟩ := hpre w hw
          exact ⟨⟨hentry, (hfailed.missing hmissing).symm⟩, hp⟩
        · refine runs_throw fun w hw => ?_
          obtain ⟨hentry, hfailed, hp⟩ := hpre w hw
          exact ⟨hobstructed w hentry hfailed, hp⟩
    · refine runs_throw fun w hw => ?_
      obtain ⟨e', he, -⟩ := hw
      cases he
    · refine runs_throw fun w hw => ?_
      obtain ⟨e', he, -⟩ := hw
      cases he
    · dsimp only
      cases hnames : listedNames path entries with
      | error e =>
        refine runs_throw fun w ⟨hlist, hentry, hp⟩ => ⟨fun _ hinspect => ?_, hp⟩
        subst hlist
        rcases hinspect with ⟨-, hsafe, -⟩ | ⟨hproof, -⟩
        · rw [(listedNames_eq path (w.proper path)).1 hsafe] at hnames
          cases hnames
        · rw [hproof.absent] at hentry
          cases hentry
      | ok names =>
        refine runs_pure fun w ⟨hlist, hentry, hp⟩ => ⟨⟨hentry, ?_⟩, hp⟩
        subst hlist
        exact (listedNames_eq path (w.proper path)).2 names hnames

end Conclusions

end ConfigBackup.FtpListings
