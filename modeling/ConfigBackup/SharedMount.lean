import ConfigBackup.MountedUpload

/-!
What workers that upload to one mount leave of each other's files. A worker counts on the
others for what it has created itself, and for everything that was there before them.
-/

namespace ConfigBackup.SharedMount

open FileTrees FtpServer Models MountedUpload NewestCopies RecordedPaths
  RemoteFileNames Replication RevisionFiles Workers

open FtpDeletion (remoteDirectory)
open FtpUpload (ReplicationResult expectedByType nameOf properName_remoteDirectory)
open IntegrityAudit (AuditedCopy FileState artifactFilesOf expectedFilesOf_ok)
open MountedDeletion (MountedContent MountedTree)

variable {ι : Type}

section Moves

/-- What an upload sets out to create: the files of a directory. -/
structure Plan where
  directory : List String
  files : List (String × List UInt8)

def Plan.Uploads (plan : Plan) (p : List String) (content : List UInt8) : Prop :=
  ∃ name, (name, content) ∈ plan.files ∧ p = name :: plan.directory

/-- What an upload makes of a path: a directory on the way, or a file or a part of it. -/
inductive Makes (plan : Plan) (p : List String) : Entry MountedContent → Prop
  | directory (h : p ∈ plan.directory.tails) : Makes plan p .directory
  | file {content part : List UInt8} (h : plan.Uploads p content) (hpart : part <+: content) :
      Makes plan p (.file (.regular part))

/-- No file goes away, and none is written but at its end. -/
def Grows (w w' : Share ι) : Prop :=
  ∀ p part, w.tree.get p = some (.file (.regular part)) →
    ∃ more, w'.tree.get p = some (.file (.regular more)) ∧ part <+: more

/-- What a worker does to the mount; only where a write can fail does it take files away. -/
structure Moved (reliable : Prop) (me : ι) (plan : Plan) (w w' : Share ι) : Prop where
  foreign : ∀ p, w.tree.get p ≠ none → w.creator p ≠ some me →
    w'.tree.get p = w.tree.get p ∧ w'.creator p = w.creator p
  planned : ∀ p, (w'.tree.get p = w.tree.get p ∧ w'.creator p = w.creator p) ∨
    (w'.tree.get p = none ∧ w'.creator p = none) ∨
    (w'.creator p = some me ∧ ∃ entry, w'.tree.get p = some entry ∧ Makes plan p entry)
  growing : reliable → Grows w w'

/-- An entry that none of the workers has created. -/
def Old (w : Share ι) (p : List String) (entry : Entry MountedContent) : Prop :=
  w.tree.get p = some entry ∧ w.creator p = none

def Owns (me : ι) (p : List String) (entry : Entry MountedContent) (w : Share ι) : Prop :=
  w.tree.get p = some entry ∧ w.creator p = some me

/-- The files of an upload that some worker has created hold a part of their content. -/
def Started (plan : Plan) (w : Share ι) : Prop :=
  ∀ p content, plan.Uploads p content → ∀ worker, w.creator p = some worker →
    ∀ entry, w.tree.get p = some entry →
      entry = .directory ∨ ∃ part, entry = .file (.regular part) ∧ part <+: content

/-- What every worker leaves to an upload. -/
structure Lasts (keep : Prop) (plan : Plan) (w w' : Share ι) : Prop where
  old : ∀ p entry, Old w' p entry ↔ Old w p entry
  growing : keep → Grows w w'
  started : keep → Started plan w → Started plan w'

theorem Grows.refl (w : Share ι) : Grows w w := fun _ part h => ⟨part, h, List.prefix_rfl⟩

theorem Grows.trans {u v w : Share ι} (h : Grows u v) (h' : Grows v w) : Grows u w := by
  intro p part hpart
  obtain ⟨more, hmore, hprefix⟩ := h p part hpart
  obtain ⟨most, hmost, hprefix'⟩ := h' p more hmore
  exact ⟨most, hmost, hprefix.trans hprefix'⟩

variable {reliable keep : Prop} {me : ι} {plan other : Plan} {w w' : Share ι} {name : String}
  {parent : List String} {content : List UInt8}

theorem Moved.refl : Moved reliable me plan w w :=
  ⟨fun _ _ _ => ⟨rfl, rfl⟩, fun _ => Or.inl ⟨rfl, rfl⟩, fun _ => .refl w⟩

theorem Lasts.refl : Lasts keep plan w w := ⟨fun _ _ => Iff.rfl, fun _ => .refl w, fun _ h => h⟩

theorem Lasts.trans {u v w : Share ι} (h : Lasts keep plan u v) (h' : Lasts keep plan v w) :
    Lasts keep plan u w :=
  ⟨fun p entry => (h'.old p entry).trans (h.old p entry),
    fun hkeep => (h.growing hkeep).trans (h'.growing hkeep),
    fun hkeep hstarted => h'.started hkeep (h.started hkeep hstarted)⟩

/-- The moves of a worker leave what every worker leaves. -/
theorem Moved.lasts (h : Moved reliable me plan w w') (hkeep : keep → reliable)
    (hagree : keep → ∀ p content content', plan.Uploads p content → other.Uploads p content' →
      content = content') : Lasts keep other w w' := by
  refine ⟨fun p entry => ⟨?_, ?_⟩, fun hk => h.growing (hkeep hk), fun hk hstarted => ?_⟩
  · rintro ⟨hentry, hcreator⟩
    rcases h.planned p with ⟨hget, hsame⟩ | ⟨hgone, -⟩ | ⟨hmine, -⟩
    · exact ⟨hget ▸ hentry, hsame ▸ hcreator⟩
    · rw [hentry] at hgone
      cases hgone
    · rw [hcreator] at hmine
      cases hmine
  · rintro ⟨hentry, hcreator⟩
    obtain ⟨hget, hsame⟩ := h.foreign p (by rw [hentry]; simp) (by rw [hcreator]; simp)
    exact ⟨hget.trans hentry, hsame.trans hcreator⟩
  · intro p content hplan worker hworker entry hentry
    rcases h.planned p with ⟨hget, hsame⟩ | ⟨hgone, -⟩ | ⟨-, made, hmade, hmakes⟩
    · exact hstarted p content hplan worker (hsame ▸ hworker) entry (hget ▸ hentry)
    · rw [hentry] at hgone
      cases hgone
    · obtain rfl : made = entry := Option.some.inj (hmade.symm.trans hentry)
      cases hmakes with
      | directory hp => exact Or.inl rfl
      | file hupload hpart =>
        rw [hagree hk p _ _ hupload hplan] at hpart
        exact Or.inr ⟨_, rfl, hpart⟩

theorem moved_create {entry : Entry MountedContent} (hnone : w.tree.get (name :: parent) = none)
    (hparent : w.tree.get parent = some .directory) (hmakes : Makes plan (name :: parent) entry) :
    Moved reliable me plan w (w.create me name parent entry) := by
  have hself : (w.create me name parent entry).tree.get (name :: parent) = some entry :=
    FileTree.get_update_self (.leaf hparent (by rw [hnone]; simp))
  have hother : ∀ p, p ≠ name :: parent → (w.create me name parent entry).tree.get p = w.tree.get p ∧
      (w.create me name parent entry).creator p = w.creator p :=
    fun p hp => ⟨FileTree.get_update_of_ne hp, if_neg hp⟩
  have hne : ∀ p, w.tree.get p ≠ none → p ≠ name :: parent := by
    rintro p hp rfl
    exact hp hnone
  refine ⟨fun p hp _ => hother p (hne p hp), fun p => ?_, fun _ p part hpart => ?_⟩
  · by_cases hp : p = name :: parent
    · subst hp
      exact Or.inr (Or.inr ⟨if_pos rfl, entry, hself, hmakes⟩)
    · exact Or.inl (hother p hp)
  · rw [(hother p (hne p (by rw [hpart]; simp))).1]
    exact ⟨part, hpart, List.prefix_rfl⟩

theorem get_fill {part : List UInt8} (more : List UInt8)
    (h : w.tree.get (name :: parent) = some (.file (.regular part))) :
    (w.fill name parent more).tree.get (name :: parent) = some (.file (.regular more)) :=
  FileTree.get_update_self (.leaf (w.tree.closed name parent (by rw [h]; rfl)) (by rw [h]; simp))

theorem moved_fill {part more : List UInt8}
    (hown : Owns me (name :: parent) (.file (.regular part)) w) (hgrow : part <+: more)
    (hplan : plan.Uploads (name :: parent) content) (hmore : more <+: content) :
    Moved reliable me plan w (w.fill name parent more) := by
  have hother : ∀ p, p ≠ name :: parent → (w.fill name parent more).tree.get p = w.tree.get p :=
    fun p hp => FileTree.get_update_of_ne hp
  refine ⟨fun p _ hp => ⟨hother p ?_, rfl⟩, fun p => ?_, fun _ p old hold => ?_⟩
  · rintro rfl
    exact hp hown.2
  · by_cases hp : p = name :: parent
    · subst hp
      exact Or.inr (Or.inr ⟨hown.2, _, get_fill more hown.1, .file hplan hmore⟩)
    · exact Or.inl ⟨hother p hp, rfl⟩
  · by_cases hp : p = name :: parent
    · subst hp
      rw [hown.1] at hold
      cases hold
      exact ⟨more, get_fill more hown.1, hgrow⟩
    · exact ⟨old, (hother p hp).trans hold, List.prefix_rfl⟩

theorem moved_remove {entry : Entry MountedContent} (hown : Owns me (name :: parent) entry w)
    (hentry : entry ≠ .directory) (hreliable : ¬ reliable) :
    Moved reliable me plan w (w.remove name parent) := by
  have hother : ∀ p, p ≠ name :: parent → (w.remove name parent).tree.get p = w.tree.get p ∧
      (w.remove name parent).creator p = w.creator p :=
    fun p hp => ⟨FileTree.get_update_of_ne hp, if_neg hp⟩
  have hadmits : w.tree.Admits name parent none :=
    .leaf (w.tree.closed name parent (by rw [hown.1]; rfl))
      (by rw [hown.1]; exact fun heq => hentry (Option.some.inj heq))
  refine ⟨fun p _ hp => hother p ?_, fun p => ?_, fun h => absurd h hreliable⟩
  · rintro rfl
    exact hp hown.2
  · by_cases hp : p = name :: parent
    · subst hp
      exact Or.inr (Or.inl ⟨FileTree.get_update_self hadmits, if_pos rfl⟩)
    · exact Or.inl (hother p hp)

end Moves

section Contracts

/-- What a worker counts on from the others is what they all leave, and its own entries. -/
def contract (keep reliable : Prop) (me : ι) (plan : Plan) : Contract (Share ι) where
  rely w w' := Lasts keep plan w w' ∧ ∀ p entry, Owns me p entry w → Owns me p entry w'
  guarantee := Moved reliable me plan
  rely_refl w := ⟨.refl, fun _ _ h => h⟩
  rely_trans h h' := ⟨h.1.trans h'.1, fun p entry hown => h'.2 p entry (h.2 p entry hown)⟩
  guarantee_refl _ := .refl

/-- Workers whose uploads of one path are of one content. -/
def Agree (plans : ι → Plan) : Prop :=
  ∀ i j p content content', (plans i).Uploads p content → (plans j).Uploads p content' →
    content = content'

/-- What none of the workers makes false. -/
def Lasting (keep : Prop) (plan : Plan) (p : Share ι → Prop) : Prop :=
  ∀ w w', p w → Lasts keep plan w w' → p w'

/-- What is known of a file: it is of interest where the workers agree and no write fails, and
where it was there before them. -/
def Known (keep : Prop) (q : List String) (good : List UInt8 → Prop) (w : Share ι) : Prop :=
  (keep ∨ ∃ entry, Old w q entry) →
    ∃ part, w.tree.get q = some (.file (.regular part)) ∧ good part

variable {keep reliable : Prop} {me : ι} {plan : Plan} {p p' : Share ι → Prop} {q : List String}
  {content : List UInt8} {good : List UInt8 → Prop}

theorem Lasting.stable (hp : Lasting keep plan p) : Stable (contract keep reliable me plan) p :=
  fun w w' hw hrely => hp w w' hw hrely.1

theorem Lasting.and (hp : Lasting keep plan p) (hp' : Lasting keep plan p') :
    Lasting keep plan fun w => p w ∧ p' w :=
  fun w w' hw h => ⟨hp w w' hw.1 h, hp' w w' hw.2 h⟩

theorem lasting_started : Lasting keep plan fun w : Share ι => keep → Started plan w :=
  fun _ _ hw h hkeep => h.started hkeep (hw hkeep)

/-- What holds of a part of a file that is not yet finished has to hold of longer ones. -/
theorem Lasting.known (hp : Lasting keep plan p)
    (hstarted : ∀ w, p w → keep → Started plan w) (hplan : plan.Uploads q content)
    (hgood : ∀ part more, good part → part <+: more → more <+: content → good more) :
    Lasting keep plan fun w => Known keep q good w ∧ p w := by
  rintro w w' ⟨hw, hpw⟩ h
  have hpw' := hp w w' hpw h
  refine ⟨fun hinterest => ?_, hpw'⟩
  by_cases hold : ∃ entry, Old w q entry
  · obtain ⟨part, hpart, hpart'⟩ := hw (Or.inr hold)
    obtain ⟨entry, hentry⟩ := hold
    obtain rfl := Option.some.inj (hentry.1.symm.trans hpart)
    exact ⟨part, ((h.old q _).mpr hentry).1, hpart'⟩
  · have hkeep : keep := by
      rcases hinterest with hkeep | ⟨entry, hentry⟩
      · exact hkeep
      · exact absurd ⟨entry, (h.old q entry).mp hentry⟩ hold
    obtain ⟨part, hpart, hpart'⟩ := hw (Or.inl hkeep)
    obtain ⟨more, hmore, hprefix⟩ := h.growing hkeep q part hpart
    cases hcreator : w'.creator q with
    | none => exact absurd ⟨_, (h.old q _).mp ⟨hmore, hcreator⟩⟩ hold
    | some worker =>
      rcases hstarted w' hpw' hkeep q content hplan worker hcreator _ hmore with
        hdirectory | ⟨found, hfound, hcontent⟩
      · cases hdirectory
      · cases hfound
        exact ⟨more, hmore, hgood part more hpart' hprefix hcontent⟩

end Contracts

section Specifications

/-- Where a worker counts on the others, no write fails and each path has one content. -/
structure Trusts (keep reliable : Prop) (fault : Call → UploadFailure → Prop) (plan : Plan) :
    Prop where
  kept : keep → reliable ∧ ∀ q content content', plan.Uploads q content →
    plan.Uploads q content' → content = content'
  write : ∀ e, fault .write e → ¬ reliable

variable {fault : Call → UploadFailure → Prop} {keep reliable : Prop} {me : ι} {plan : Plan}
  {p : Share ι → Prop} {name : String} {parent path : List String} {content : List UInt8}

/-- The moves of the worker itself last as well. -/
theorem Lasting.moved (hp : Lasting keep plan p) (htrusts : Trusts keep reliable fault plan)
    {w w' : Share ι} (hw : p w) (h : Moved reliable me plan w w') : p w' :=
  hp w w' hw (h.lasts (fun hkeep => (htrusts.kept hkeep).1) fun hkeep => (htrusts.kept hkeep).2)

theorem does_look {α : Type} {kind : Call} {f : MountedTree → Except UploadFailure α}
    (hp : Stable (contract keep reliable me plan) p) :
    Does fault (contract keep reliable me plan) p (look kind f)
      (fun a w => f w.tree = .ok a ∧ p w) (fun _ w => p w) :=
  does_send hp (fun _ _ => .refl) (fun _ _ hw hok => ⟨hok, hw⟩) (fun _ _ hw _ => hw)
    fun _ _ hw _ => ⟨hw, hw⟩

theorem stable_owns {entry : Entry MountedContent} :
    Stable (contract keep reliable me plan) (Owns me path entry) :=
  fun _ _ hw hrely => hrely.2 path entry hw

theorem does_create (hp : Lasting keep plan p) (htrusts : Trusts keep reliable fault plan)
    {kind : Call} {entry : Entry MountedContent} (hmakes : Makes plan (name :: parent) entry) :
    Does fault (contract keep reliable me plan) p (send kind (tryCreate me name parent entry))
      (fun _ w => Owns me (name :: parent) entry w ∧ p w) (fun _ w => p w) := by
  have heffect : ∀ w, p w → Moved reliable me plan w (tryCreate me name parent entry w).2 := by
    intro w _
    rcases tryCreate_cases me name parent entry w with ⟨e, he⟩ | ⟨hnone, hparent, hcreated⟩
    · rw [he]
      exact .refl
    · rw [hcreated]
      exact moved_create hnone hparent hmakes
  have hafter : ∀ w, p w → p (tryCreate me name parent entry w).2 :=
    fun w hw => hp.moved htrusts hw (heffect w hw)
  refine does_send hp.stable heffect (fun w u hw hok => ⟨?_, hafter w hw⟩)
    (fun w _ hw _ => hafter w hw) fun w _ hw _ => ⟨hw, hafter w hw⟩
  rcases tryCreate_cases me name parent entry w with ⟨e, he⟩ | ⟨hnone, hparent, hcreated⟩
  · rw [he] at hok
    cases hok
  · rw [hcreated]
    exact ⟨FileTree.get_update_self (.leaf hparent (by rw [hnone]; simp)), if_pos rfl⟩

theorem does_orDirectory (hp : Lasting keep plan p) (e : UploadFailure) :
    Does fault (contract keep reliable me plan) p (orDirectory path e)
      (fun _ w => w.tree.get path = some .directory ∧ p w) (fun _ w => p w) := by
  cases e with
  | os e =>
    refine Does.bind (does_look hp.stable) fun found => ?_
    cases found with
    | true =>
      refine does_returned fun w hw => ⟨?_, hw.2⟩
      simpa using hw.1
    | false => exact does_raise fun w hw => hw.2
  | destination e => exact does_raise fun w hw => hw
  | other => exact does_raise fun w hw => hw

/-- Whatever lay on the way to a directory before the workers is a directory. -/
def Passable (path : List String) (w : Share ι) : Prop :=
  ∀ above ∈ path.tails, ∀ entry, Old w above entry → entry = .directory

theorem Passable.of_directory {w : Share ι} (h : w.tree.get path = some .directory) :
    Passable path w := by
  intro above habove entry hold
  exact (Option.some.inj ((FileTree.get_of_mem_tails h habove).symm.trans hold.1)).symm

theorem lasting_passable : Lasting keep plan (Passable path : Share ι → Prop) :=
  fun _ _ hw h above habove entry hold => hw above habove entry ((h.old above entry).mp hold)

theorem does_mkdirs (hp : Lasting keep plan p) (htrusts : Trusts keep reliable fault plan)
    (hpath : path ∈ plan.directory.tails) :
    Does fault (contract keep reliable me plan) p (mkdirs me path)
      (fun _ w => Passable path w ∧ p w) (fun _ w => p w) := by
  have hpassable : ∀ (path : List String) (w : Share ι),
      w.tree.get path = some .directory ∧ p w → Passable path w ∧ p w :=
    fun _ _ hw => ⟨.of_directory hw.1, hw.2⟩
  induction path with
  | nil => exact (does_orDirectory hp _).mono (fun _ w hw => hpassable [] w hw) fun _ _ hw => hw
  | cons name parent ih =>
    have hparent : parent ∈ plan.directory.tails :=
      (List.mem_tails _ _).mpr ((List.suffix_cons name parent).trans ((List.mem_tails _ _).mp hpath))
    have hmake := (@does_create ι fault keep reliable me plan p name parent hp htrusts .mkdir
      .directory (.directory hpath)).mono (fun _ w hw => hpassable _ w ⟨hw.1.1, hw.2⟩)
        fun _ _ hw => hw
    have hthere : ∀ e, Does fault (contract keep reliable me plan) p
        (orDirectory (name :: parent) e) (fun _ w => Passable (name :: parent) w ∧ p w)
        fun _ w => p w :=
      fun e => (does_orDirectory hp e).mono (fun _ w hw => hpassable _ w hw) fun _ _ hw => hw
    unfold mkdirs
    refine Does.handle hmake fun e => ?_
    split
    · refine Does.bind (ih hparent) fun _ => ?_
      refine Does.handle (hmake.weaken fun w hw => hw.2) fun e => ?_
      split
      · exact does_raise fun w hw => hw
      · exact hthere e
    · exact hthere e

theorem does_rejectSymlinkPath (hp : Lasting keep plan p) :
    Does fault (contract keep reliable me plan) p (rejectSymlinkPath path) (fun _ w => p w)
      (fun _ w => p w) := by
  have hlook : ∀ (kind : Call) (f : MountedTree → Except UploadFailure Bool),
      Does fault (contract keep reliable me plan) p (look kind f) (fun _ w => p w)
        (fun _ w => p w) :=
    fun _ _ => (does_look hp.stable).mono (fun _ _ hw => hw.2) fun _ _ hw => hw
  induction path with
  | nil => exact does_returned fun w hw => hw
  | cons name parent ih =>
    unfold rejectSymlinkPath
    refine Does.bind ih fun _ => Does.bind (hlook _ _) fun found => ?_
    split
    · refine Does.bind (hlook _ _) fun symlink => ?_
      split
      · exact does_raise fun w hw => hw
      · exact does_returned fun w hw => hw
    · exact does_returned fun w hw => hw

/-- A write of the worker that has created a file, at its end. -/
theorem does_writeBytes [DecidableEq ι] (hp : Lasting keep plan p)
    (htrusts : Trusts keep reliable fault plan) {part more : List UInt8}
    (hplan : plan.Uploads (name :: parent) content) (hgrow : part <+: more)
    (hmore : more <+: content) :
    Does fault (contract keep reliable me plan)
      (fun w => Owns me (name :: parent) (.file (.regular part)) w ∧ p w)
      (writeBytes me name parent more)
      (fun _ w => Owns me (name :: parent) (.file (.regular more)) w ∧ p w)
      (fun _ w => ¬ reliable ∧
        (∃ part, Owns me (name :: parent) (.file (.regular part)) w) ∧ p w) := by
  have hfill : ∀ w, Owns me (name :: parent) (.file (.regular part)) w ∧ p w →
      Moved reliable me plan w (w.fill name parent more) ∧
        Owns me (name :: parent) (.file (.regular more)) (w.fill name parent more) ∧
          p (w.fill name parent more) := by
    rintro w ⟨hown, hw⟩
    have hmoved := @moved_fill ι reliable me plan w name parent content part more hown hgrow hplan
      hmore
    exact ⟨hmoved, ⟨get_fill more hown.1, hown.2⟩, hp.moved htrusts hw hmoved⟩
  refine does_send (stable_owns.and hp.stable) (fun w hw => ?_) (fun w u hw _ => ?_)
    (fun w e _ herror => by cases herror) fun w e hw he => ?_
  · rw [if_pos hw.1.2]
    exact (hfill w hw).1
  · rw [if_pos hw.1.2]
    exact (hfill w hw).2
  · rw [if_pos hw.1.2]
    exact ⟨⟨htrusts.write e he, ⟨_, hw.1⟩, hw.2⟩,
      ⟨htrusts.write e he, ⟨_, (hfill w hw).2.1⟩, (hfill w hw).2.2⟩⟩

/-- The clean-up after a write that has failed. -/
theorem does_unlink (hp : Lasting keep plan p) (htrusts : Trusts keep reliable fault plan) :
    Does fault (contract keep reliable me plan)
      (fun w => ¬ reliable ∧ (∃ part, Owns me (name :: parent) (.file (.regular part)) w) ∧ p w)
      (unlink name parent) (fun _ w => p w) (fun _ w => p w) := by
  refine Does.assume fun hreliable => ?_
  have hremove : ∀ w, (∃ part, Owns me (name :: parent) (.file (.regular part)) w) ∧ p w →
      Moved reliable me plan w (w.remove name parent) ∧ p (w.remove name parent) := by
    rintro w ⟨⟨part, hown⟩, hw⟩
    have hmoved : Moved reliable me plan w (w.remove name parent) :=
      moved_remove hown (by simp) hreliable
    exact ⟨hmoved, hp.moved htrusts hw hmoved⟩
  have hstable : Stable (contract keep reliable me plan) fun w =>
      (∃ part, Owns me (name :: parent) (.file (.regular part)) w) ∧ p w := by
    rintro w w' ⟨⟨part, hown⟩, hw⟩ hrely
    exact ⟨⟨part, stable_owns w w' hown hrely⟩, hp.stable w w' hw hrely⟩
  refine does_send hstable (fun w hw => ?_) (fun w u hw _ => ?_) (fun w e hw herror => ?_)
    fun w e hw _ => ⟨hw.2, ?_⟩
  all_goals obtain ⟨part, hown⟩ := hw.1
  · rw [hown.1]
    exact (hremove w hw).1
  · rw [hown.1]
    exact (hremove w hw).2
  · rw [hown.1] at herror
    cases herror
  · rw [hown.1]
    exact (hremove w hw).2

theorem does_writeNewFile [DecidableEq ι] (hp : Lasting keep plan p)
    (htrusts : Trusts keep reliable fault plan) (cut : List UInt8 → ℕ)
    (hplan : plan.Uploads (name :: parent) content) :
    Does fault (contract keep reliable me plan) p (writeNewFile me cut name parent content)
      (fun _ w => p w) (fun _ w => p w) := by
  have hopen := @does_create ι fault keep reliable me plan p name parent hp htrusts .create
    (.file (.regular [])) (.file hplan List.nil_prefix)
  have hfirst := @does_writeBytes ι fault keep reliable me plan p name parent content _ hp htrusts
    [] (content.take (cut content)) hplan List.nil_prefix (List.take_prefix _ _)
  have hsecond := @does_writeBytes ι fault keep reliable me plan p name parent content _ hp htrusts
    (content.take (cut content)) content hplan (List.take_prefix _ _) List.prefix_rfl
  have hflush : Does fault (contract keep reliable me plan)
      (fun w => Owns me (name :: parent) (.file (.regular content)) w ∧ p w) flush
      (fun _ w => p w) (fun _ w => ¬ reliable ∧
        (∃ part, Owns me (name :: parent) (.file (.regular part)) w) ∧ p w) :=
    does_send (stable_owns.and hp.stable) (fun _ _ => .refl) (fun _ _ hw _ => hw.2)
      (fun _ _ _ herror => by cases herror) fun w e hw he =>
        ⟨⟨htrusts.write e he, ⟨_, hw.1⟩, hw.2⟩, ⟨htrusts.write e he, ⟨_, hw.1⟩, hw.2⟩⟩
  unfold writeNewFile
  refine Does.bind hopen fun _ => Does.handle (Does.bind hfirst fun _ => Does.bind hsecond fun _ =>
    hflush) fun e => ?_
  refine Does.bind (Does.handle (does_unlink hp htrusts) fun e' => ?_) fun _ =>
    does_raise fun w hw => hw
  cases e' with
  | os e' => exact does_returned fun w hw => hw
  | destination e' => exact does_raise fun w hw => hw
  | other => exact does_raise fun w hw => hw

end Specifications

section Verification

/-- A content that a verification accepts in place of another. -/
def Verified (lib : Library) (content part : List UInt8) : Prop :=
  part.length = content.length ∧ lib.sha256Hex part = lib.sha256Hex content

variable {fault : Call → UploadFailure → Prop} {keep reliable : Prop} {me : ι} {plan : Plan}
  {p : Share ι → Prop} {q : List String} {content part more : List UInt8} {lib : Library}

/-- A part of the right length is the whole. -/
theorem Verified.grows (h : Verified lib content part) (hgrow : part <+: more)
    (hmore : more <+: content) : Verified lib content more := by
  obtain rfl : more = part := (hgrow.eq_of_length_le (hmore.length_le.trans h.1.ge)).symm
  exact h

theorem Lasting.verified (hp : Lasting keep plan p)
    (hstarted : ∀ w, p w → keep → Started plan w) (hplan : plan.Uploads q content) :
    Lasting keep plan fun w => Known keep q (Verified lib content) w ∧ p w :=
  hp.known hstarted hplan fun _ _ => Verified.grows

/-- What verification accepts is a whole file, whatever the others do meanwhile. -/
theorem does_verifyFile (hp : Lasting keep plan p) (hstarted : ∀ w, p w → keep → Started plan w)
    (hplan : plan.Uploads q content) :
    Does fault (contract keep reliable me plan) p
      (verifyFile lib q content.length (lib.sha256Hex content))
      (fun state w => (state = .ok → Known keep q (Verified lib content) w) ∧ p w)
      (fun _ w => p w) := by
  have hpure : ∀ {state : FileState} {pre : Share ι → Prop}, state ≠ .ok → (∀ w, pre w → p w) →
      Does fault (contract keep reliable me plan) pre (pure state : Upload ι FileState)
        (fun state w => (state = .ok → Known keep q (Verified lib content) w) ∧ p w)
        (fun _ w => p w) :=
    fun hstate hpre => does_returned fun w hw => ⟨fun h => absurd h hstate, hpre w hw⟩
  unfold verifyFile
  refine @Does.handle _ _ _ _ fault _ p _ (fun _ w => p w) _ _ _ ?_ fun e => ?_
  · refine Does.bind (does_look hp.stable) fun symlink => ?_
    split
    · exact hpure (by simp) fun w hw => hw.2
    refine Does.bind ((does_look hp.stable).weaken fun w hw => hw.2) fun regular => ?_
    cases regular with
    | false =>
      rw [if_neg Bool.false_ne_true]
      exact hpure (by simp) fun w hw => hw.2
    | true =>
      rw [if_pos rfl]
      have hregular : Lasting keep plan fun w => Known keep q (fun _ => True) w ∧ p w :=
        hp.known hstarted hplan fun _ _ _ _ _ => trivial
      have hsize : Lasting keep plan fun w =>
          Known keep q (fun part => part.length = content.length) w ∧ p w :=
        hp.known hstarted hplan fun part more hpart hgrow hmore =>
          le_antisymm hmore.length_le (hpart ▸ hgrow.length_le)
      refine Does.bind (((does_look hregular.stable).weaken ?_).mono (fun _ _ hw => hw)
        fun _ _ hw => hw.2) fun found => ?_
      · -- the file is one, and stays one
        rintro w ⟨hfound, hw⟩
        refine ⟨fun _ => ?_, hw⟩
        replace hfound := Except.ok.inj hfound
        split at hfound
        · rename_i part hentry
          exact ⟨part, hentry, trivial⟩
        · cases hfound
      · split
        · exact hpure (by simp) fun w hw => hw.2.2
        rename_i hlength
        rw [not_not] at hlength
        refine Does.bind (((does_look hsize.stable).weaken ?_).mono (fun _ _ hw => hw)
          fun _ _ hw => hw.2) fun bytes => ?_
        · rintro w ⟨hfound, hknown, hw⟩
          refine ⟨fun hinterest => ?_, hw⟩
          obtain ⟨part, hpart, -⟩ := hknown hinterest
          rw [hpart] at hfound
          exact ⟨part, hpart, (Except.ok.inj hfound).trans hlength⟩
        · split
          · exact hpure (by simp) fun w hw => hw.2.2
          rename_i hhash
          rw [not_not] at hhash
          refine does_returned fun w hw => ⟨fun _ hinterest => ?_, hw.2.2⟩
          obtain ⟨part, hpart, hlength⟩ := hw.2.1 hinterest
          have hread := hw.1
          rw [hpart] at hread
          exact ⟨part, hpart, hlength, Except.ok.inj hread ▸ hhash⟩
  · rcases e with (_ | _ | _ | _) | _ | _
    · exact hpure (by simp) fun w hw => hw
    · exact hpure (by simp) fun w hw => hw
    · exact hpure (by simp) fun w hw => hw
    · exact hpure (by simp) fun w hw => hw
    · exact does_raise fun w hw => hw
    · exact does_raise fun w hw => hw

end Verification

section Uploads

variable [DecidableEq ι] {fault : Call → UploadFailure → Prop} {keep reliable : Prop} {me : ι}
  {plan : Plan} {p : Share ι → Prop} {path : List String} {name : String}
  {content manifest : List UInt8} {lib : Library} {cut : List UInt8 → ℕ} {depth : ℕ}
  {read : String → Option (List UInt8)} {maxArtifactSize : ℕ} {expected : List ExpectedRemoteFile}
  {copy : AuditedCopy}

theorem does_putImmutable (hp : Lasting keep plan p)
    (hstarted : ∀ w, p w → keep → Started plan w) (htrusts : Trusts keep reliable fault plan)
    (hplan : plan.Uploads (name :: path) content) :
    Does fault (contract keep reliable me plan) p
      (putImmutable me cut lib path name content (lib.sha256Hex content) depth)
      (fun _ w => Known keep (name :: path) (Verified lib content) w ∧ p w) (fun _ w => p w) := by
  have hverify := @does_verifyFile ι fault keep reliable me plan p (name :: path) content lib hp
    hstarted hplan
  induction depth with
  | zero => exact does_raise fun w hw => hw
  | succ depth ih =>
    unfold putImmutable
    refine Does.bind (does_look hp.stable) fun found => ?_
    split
    · refine Does.bind (hverify.weaken fun w hw => hw.2) fun state => ?_
      split
      · rename_i hok
        exact does_returned fun w hw => ⟨hw.1 hok, hw.2⟩
      · exact does_raise fun w hw => hw.2
    · have hwrite := @does_writeNewFile ι fault keep reliable me plan p name path content _ hp
        htrusts cut hplan
      have hnew : Does fault (contract keep reliable me plan) p
          (do writeNewFile me cut name path content; pure false : Upload ι Bool) (fun _ w => p w)
          (fun _ w => p w) := Does.bind hwrite fun _ => does_returned fun w hw => hw
      refine Does.bind (Does.handle (hnew.weaken fun w hw => hw.2) fun e => ?_) fun taken => ?_
      · split
        · exact does_returned fun w hw => hw
        · exact does_raise fun w hw => hw
      · split
        · exact ih
        · refine Does.bind hverify fun state => ?_
          split
          · rename_i hok
            exact does_returned fun w hw => ⟨hw.1 hok, hw.2⟩
          · exact does_raise fun w hw => hw.2

/-- An artifact can be uploaded, and its file is known. -/
def Uploaded (keep : Prop) (lib : Library) (path : List String)
    (read : String → Option (List UInt8)) (maxArtifactSize : ℕ)
    (expected : List ExpectedRemoteFile) (artifact : ConfigArtifact) (w : Share ι) : Prop :=
  ∃ upload, nextUpload lib read maxArtifactSize expected artifact = .ok upload ∧
    Known keep (upload.1 :: path) (Verified lib upload.2) w

theorem does_uploadArtifacts (hp : Lasting keep plan p)
    (hstarted : ∀ w, p w → keep → Started plan w) (htrusts : Trusts keep reliable fault plan)
    {artifacts : List ConfigArtifact} (hplan : ∀ artifact ∈ artifacts, ∀ upload,
      nextUpload lib read maxArtifactSize expected artifact = .ok upload →
        plan.Uploads (upload.1 :: path) upload.2) (transferred : ℕ) :
    Does fault (contract keep reliable me plan) p
      (uploadArtifacts me cut lib path read maxArtifactSize depth expected artifacts transferred)
      (fun _ w => (∀ artifact ∈ artifacts,
        Uploaded keep lib path read maxArtifactSize expected artifact w) ∧ p w)
      (fun _ w => p w) := by
  induction artifacts generalizing p transferred with
  | nil => exact does_returned fun w hw => ⟨fun _ hmem => absurd hmem List.not_mem_nil, hw⟩
  | cons artifact rest ih =>
    unfold uploadArtifacts
    cases hnext : nextUpload lib read maxArtifactSize expected artifact with
    | error e => exact does_raise fun w hw => hw
    | ok upload =>
      have hupload := hplan artifact List.mem_cons_self upload hnext
      refine Does.bind (does_putImmutable hp hstarted htrusts hupload) fun created => ?_
      have hlasting := @Lasting.verified ι keep plan p _ _ lib hp hstarted hupload
      refine (ih hlasting (fun w hw => hstarted w hw.2)
        (fun other hmem => hplan other (List.mem_cons_of_mem _ hmem)) _).mono ?_
          fun _ _ hw => hw.2
      rintro _ w ⟨hrest, hknown, hw⟩
      refine ⟨fun other hmem => ?_, hw⟩
      rcases List.mem_cons.mp hmem with rfl | hmem
      · exact ⟨upload, hnext, hknown⟩
      · exact hrest other hmem

theorem does_uploadFiles (hp : Lasting keep plan p)
    (hstarted : ∀ w, p w → keep → Started plan w) (htrusts : Trusts keep reliable fault plan)
    (hplan : ∀ artifact ∈ copy.artifacts, ∀ upload,
      nextUpload lib read maxArtifactSize expected artifact = .ok upload →
        plan.Uploads (upload.1 :: plan.directory) upload.2)
    (hmanifest : plan.Uploads (manifestName :: plan.directory) manifest) :
    Does fault (contract keep reliable me plan) p
      (uploadFiles me cut lib plan.directory read maxArtifactSize depth copy expected manifest)
      (fun _ w => Known keep (manifestName :: plan.directory) (Verified lib manifest) w ∧
        (∀ artifact ∈ copy.artifacts,
          Uploaded keep lib plan.directory read maxArtifactSize expected artifact w) ∧
        Passable plan.directory w ∧ p w) (fun _ w => p w) := by
  have hself : plan.directory ∈ plan.directory.tails := (List.mem_tails _ _).mpr List.suffix_rfl
  have hpassable := (@lasting_passable ι keep plan plan.directory).and hp
  unfold uploadFiles
  refine @Does.handle _ _ _ _ fault _ p _ (fun _ w => p w) _ _ _ ?_ fun e => does_raise fun w hw => hw
  refine Does.bind (does_mkdirs hp htrusts hself) fun _ => ?_
  refine Does.bind ((does_rejectSymlinkPath hpassable).mono (fun _ _ hw => hw) fun _ _ hw => hw.2)
    fun _ => ?_
  refine Does.bind ((does_uploadArtifacts hpassable (fun w hw => hstarted w hw.2) htrusts hplan
    0).mono (fun _ _ hw => hw) fun _ _ hw => hw.2) fun transferred => ?_
  have hlasting : Lasting keep plan fun w => (∀ artifact ∈ copy.artifacts,
      Uploaded keep lib plan.directory read maxArtifactSize expected artifact w) ∧
        Passable plan.directory w ∧ p w := by
    rintro w w' ⟨hw, hpw⟩ hlasts
    refine ⟨fun artifact hmem => ?_, hpassable w w' hpw hlasts⟩
    obtain ⟨upload, hnext, hknown⟩ := hw artifact hmem
    have hverified := @Lasting.verified ι keep plan p _ _ lib hp hstarted
      (hplan artifact hmem upload hnext)
    exact ⟨upload, hnext, (hverified w w' ⟨hknown, hpw.2⟩ hlasts).1⟩
  refine Does.bind ((does_putImmutable hlasting (fun w hw => hstarted w hw.2.2) htrusts
    hmanifest).mono (fun _ _ hw => hw) fun _ _ hw => hw.2.2) fun created => ?_
  exact does_returned fun w hw => hw

end Uploads

section Jobs

/-- What a worker is given: a destination with a copy, the primary storage, and how its system
calls and its interpreter divide the work. -/
structure Job where
  cut : List UInt8 → ℕ
  read : String → Option (List UInt8)
  depth : ℕ
  root : Except DestinationError Unit
  destination : BackupDestination
  copy : AuditedCopy

variable (lib : Library)

def Job.worker [DecidableEq ι] (job : Job) (me : ι) : Upload ι ReplicationResult :=
  replicateRevisionMounted me job.cut lib job.read job.depth job.root job.destination job.copy

/-- An artifact of the copy under its name. -/
def Job.next (job : Job) (expected : List ExpectedRemoteFile) (artifact : ConfigArtifact) :
    Except UploadFailure (String × List UInt8) :=
  nextUpload lib job.read job.destination.maxArtifactSize expected artifact

/-- The directory of the copy, with the artifacts that can be uploaded and the manifest. -/
def Job.plan (job : Job) : Plan :=
  match uploadFileset lib job.destination job.copy with
  | .ok (copy, expected, manifest) =>
    ⟨remoteDirectory copy.replica.remotePath,
      copy.artifacts.filterMap (fun artifact => (job.next lib expected artifact).toOption) ++
        [(manifestName, manifest)]⟩
  | .error _ => ⟨[], []⟩

/-- What a worker knows when it returns. -/
structure Finished (keep : Prop) (job : Job) (w : Share ι) : Prop where
  accepted : ∃ copy expected manifest,
    uploadFileset lib job.destination job.copy = .ok (copy, expected, manifest) ∧
      ∀ artifact ∈ copy.artifacts, ∃ upload, job.next lib expected artifact = .ok upload
  root : job.root = .ok ()
  passable : Passable (job.plan lib).directory w
  files : ∀ file ∈ (job.plan lib).files,
    Known keep (file.1 :: (job.plan lib).directory) (Verified lib file.2) w

variable {fault : Call → UploadFailure → Prop} {keep reliable : Prop} {me : ι}
  {p : Share ι → Prop} {lib : Library} {job : Job}

theorem does_worker [DecidableEq ι] (hp : Lasting keep (job.plan lib) p)
    (hstarted : ∀ w, p w → keep → Started (job.plan lib) w)
    (htrusts : Trusts keep reliable fault (job.plan lib)) :
    Does fault (contract keep reliable me (job.plan lib)) p (job.worker lib me)
      (fun _ w => Finished lib keep job w ∧ p w) (fun _ w => p w) := by
  unfold Job.worker replicateRevisionMounted
  cases hset : uploadFileset lib job.destination job.copy with
  | error e => exact does_raise fun w hw => hw
  | ok found =>
    obtain ⟨copy, expected, manifest⟩ := found
    cases hroot : job.root with
    | error e => exact does_raise fun w hw => hw
    | ok u =>
      have hplan : job.plan lib = ⟨remoteDirectory copy.replica.remotePath,
          copy.artifacts.filterMap (fun artifact => (job.next lib expected artifact).toOption) ++
            [(manifestName, manifest)]⟩ := by
        unfold Job.plan
        rw [hset]
      have hdirectory : remoteDirectory copy.replica.remotePath = (job.plan lib).directory := by
        rw [hplan]
      have hfiles : ∀ file, file ∈ (job.plan lib).files ↔
          (∃ artifact ∈ copy.artifacts, job.next lib expected artifact = .ok file) ∨
            file = (manifestName, manifest) := by
        intro file
        rw [hplan]
        simp only [List.mem_append, List.mem_filterMap, List.mem_singleton]
        refine or_congr (exists_congr fun artifact => and_congr_right fun _ => ?_) Iff.rfl
        cases job.next lib expected artifact <;> simp [Except.toOption]
      dsimp only
      rw [hdirectory]
      refine (does_uploadFiles hp hstarted htrusts (fun artifact hmem upload hnext =>
        ⟨upload.1, (hfiles _).mpr (Or.inl ⟨artifact, hmem, hnext⟩), rfl⟩)
        ⟨manifestName, (hfiles _).mpr (Or.inr rfl), rfl⟩).mono ?_ fun _ _ hw => hw
      rintro _ w ⟨hmanifest, hartifacts, hpassable, hw⟩
      refine ⟨⟨⟨copy, expected, manifest, hset, fun artifact hmem => ?_⟩, hroot, hpassable,
        fun file hfile => ?_⟩, hw⟩
      · obtain ⟨upload, hnext, -⟩ := hartifacts artifact hmem
        exact ⟨upload, hnext⟩
      · rcases (hfiles file).mp hfile with ⟨artifact, hmem, hnext⟩ | rfl
        · obtain ⟨upload, hupload, hknown⟩ := hartifacts artifact hmem
          obtain rfl := Except.ok.inj (hupload.symm.trans hnext)
          exact hknown
        · exact hmanifest

end Jobs

section Systems

variable [DecidableEq ι] {fault : Call → UploadFailure → Prop} {lib : Library}
  {jobs : ι → Job} {s s' : System ι Call (Share ι) UploadFailure ReplicationResult}

/-- Workers at the start of their jobs, on a mount on which none of them has created anything. -/
structure Begin (lib : Library) (jobs : ι → Job)
    (s : System ι Call (Share ι) UploadFailure ReplicationResult) : Prop where
  workers : ∀ i, s.workers i = (jobs i).worker lib i
  creator : ∀ p, s.world.creator p = none

/-- No write to a file that has been created fails. -/
def WritesSucceed (fault : Call → UploadFailure → Prop) : Prop := ∀ e, ¬ fault .write e

/-- What holds of all workers in every run of theirs. -/
theorem Begin.reaches (hbegin : Begin lib jobs s) (keep : Prop)
    (hkeep : keep → WritesSucceed fault ∧ Agree fun i => (jobs i).plan lib)
    (hrun : Reaches fault s s') :
    Relation.ReflTransGen
        (fun w w' => ∃ i, Moved (WritesSucceed fault) i ((jobs i).plan lib) w w') s.world s'.world ∧
      ∀ i r, s'.workers i = .returned r → Finished lib keep (jobs i) s'.world := by
  let known (i : ι) (w : Share ι) : Prop := keep → Started ((jobs i).plan lib) w
  have hknown : ∀ i, Lasting keep ((jobs i).plan lib) (known i) := fun i => lasting_started
  have hfinished : ∀ i, Lasting keep ((jobs i).plan lib) fun w =>
      Finished lib keep (jobs i) w ∧ known i w := by
    rintro i w w' ⟨hw, hpw⟩ hlasts
    refine ⟨⟨hw.accepted, hw.root, lasting_passable w w' hw.passable hlasts, fun file hfile => ?_⟩,
      hknown i w w' hpw hlasts⟩
    have hverified := @Lasting.verified ι keep _ _ (file.1 :: ((jobs i).plan lib).directory)
      file.2 lib (hknown i) (fun _ hpw => hpw) ⟨file.1, hfile, rfl⟩
    exact (hverified w w' ⟨hw.files file hfile, hpw⟩ hlasts).1
  have hcooperate : Cooperate
      (fun i => contract keep (WritesSucceed fault) i ((jobs i).plan lib))
      (fun i (_ : ReplicationResult) w => Finished lib keep (jobs i) w ∧ known i w)
      (fun i (_ : UploadFailure) w => known i w) := by
    refine ⟨fun i j hij w w' hmoved => ⟨?_, fun q entry hown => ?_⟩,
      fun i _ => (hfinished i).stable, fun i _ => (hknown i).stable⟩
    · exact hmoved.lasts (fun hk => (hkeep hk).1)
        fun hk q content content' hc hc' => (hkeep hk).2 i j q content content' hc hc'
    · obtain ⟨hget, hcreator⟩ := hmoved.foreign q (by rw [hown.1]; simp)
        (by rw [hown.2]; exact fun heq => hij (Option.some.inj heq))
      exact ⟨hget.trans hown.1, hcreator.trans hown.2⟩
  have hsafe : ∀ i, Safe fault (contract keep (WritesSucceed fault) i ((jobs i).plan lib))
      (fun (_ : ReplicationResult) w => Finished lib keep (jobs i) w ∧ known i w)
      (fun (_ : UploadFailure) w => known i w) (s.workers i) s.world := by
    intro i
    rw [hbegin.workers i]
    refine does_worker (hknown i) (fun _ hpw => hpw) ⟨fun hk => ⟨(hkeep hk).1, ?_⟩, ?_⟩ s.world ?_
    · exact fun q content content' hc hc' => (hkeep hk).2 i i q content content' hc hc'
    · exact fun e he hreliable => hreliable e he
    · rintro - q content - worker hworker
      rw [hbegin.creator q] at hworker
      cases hworker
  obtain ⟨hmoved, hend⟩ := hcooperate.reaches hsafe hrun
  refine ⟨hmoved, fun i r hreturned => ?_⟩
  have hi := hend i
  rw [hreturned] at hi
  exact hi.1

/-- Any number of workers that upload one copy to an empty mount. -/
def exampleJob : Job where
  cut _ := 0
  read _ := some [1]
  depth := 1
  root := .ok ()
  destination := { exampleDestination with protocol := .nfs }
  copy := IntegrityAudit.exampleAuditedCopy

def exampleStart : System ℕ Call (Share ℕ) UploadFailure ReplicationResult where
  world := ⟨FileTree.empty, fun _ => none⟩
  workers := exampleJob.worker IntegrityAudit.exampleLibrary

theorem exampleStart_begin :
    Begin IntegrityAudit.exampleLibrary (fun _ => exampleJob) exampleStart :=
  ⟨fun _ => rfl, fun _ => rfl⟩

/-- The end of a run of the first of them. -/
theorem exampleStart_returns (fault : Call → UploadFailure → Prop) :
    ∃ s', Reaches fault exampleStart s' ∧ ∃ r, s'.workers 0 = .returned r := by
  obtain ⟨s', hrun, -, hend⟩ := @reaches_alone ℕ Call (Share ℕ) UploadFailure ReplicationResult
    fault 0 _ exampleStart
  have hresult : ((exampleJob.worker IntegrityAudit.exampleLibrary 0).alone exampleStart.world).1 =
      .ok ⟨"/backups/devices/router-7/revisions/revision-1", 3, 1⟩ := by decide +kernel
  exact ⟨s', hrun, _, hend.trans (by
    change (match ((exampleJob.worker IntegrityAudit.exampleLibrary 0).alone
      exampleStart.world).1 with
      | .ok a => Worker.returned a
      | .error e => .raised e) = _
    rw [hresult])⟩

end Systems

section Copies

variable {lib : Library} {job : Job} {copy : AuditedCopy} {expected : List ExpectedRemoteFile}
  {manifest : List UInt8} {artifact : ConfigArtifact} {upload : String × List UInt8}

/-- What the checks before an upload establish. -/
theorem uploadFileset_ok {destination : BackupDestination} {recorded : AuditedCopy}
    (h : uploadFileset lib destination recorded = .ok (copy, expected, manifest)) :
    (copy.artifacts = recorded.artifacts ∧
      expected = artifactFilesOf lib copy ++
        [⟨manifestName, manifest.length, lib.sha256Hex manifest, "manifest"⟩] ∧
      (copy.artifacts.map (nameOf lib copy)).Nodup) ∧
      ∀ name ∈ remoteDirectory copy.replica.remotePath, ProperName name := by
  unfold uploadFileset at h
  split at h
  · cases h
  split at h
  · cases h
  split at h
  · cases h
  dsimp only at h
  split at h
  · cases h
  split at h
  · cases h
  rename_i found hpath
  split at h
  · cases h
  rename_i files hfiles
  obtain ⟨rfl, rfl, rfl⟩ := Prod.mk.inj (Except.ok.inj h) |>.imp_right Prod.mk.inj
  obtain ⟨hexpected, hnames⟩ := expectedFilesOf_ok hfiles
  refine ⟨⟨rfl, hexpected, ?_⟩, properName_remoteDirectory hpath⟩
  unfold artifactFilesOf at hnames
  rwa [List.map_map] at hnames

/-- An artifact is uploaded as its own expected file. -/
theorem next_ok (hset : uploadFileset lib job.destination job.copy = .ok (copy, expected, manifest))
    (htypes : (job.copy.artifacts.map (fun artifact => artifact.artifactType)).Nodup)
    (hmem : artifact ∈ copy.artifacts) (hnext : job.next lib expected artifact = .ok upload) :
    upload.1 = nameOf lib copy artifact ∧ upload.2.length = artifact.size ∧
      lib.sha256Hex upload.2 = artifact.rawHash := by
  obtain ⟨⟨hartifacts, hexpected, hnames⟩, -⟩ := uploadFileset_ok hset
  have hfileset : FtpUpload.Fileset lib copy expected manifest :=
    ⟨hexpected, hnames, by rwa [hartifacts]⟩
  unfold Job.next nextUpload at hnext
  split at hnext
  · cases hnext
  rename_i content hload
  split at hnext
  · cases hnext
  rename_i file hfile
  obtain rfl := Except.ok.inj hnext
  rw [hfileset.expectedByType_eq hmem hfile]
  unfold loadArtifact at hload
  split at hload
  · cases hload
  split at hload
  · cases hload
  split at hload
  · cases hload
  rename_i hvalid
  obtain rfl := Except.ok.inj hload
  rw [not_or, not_not, not_not] at hvalid
  exact ⟨rfl, hvalid.1, hvalid.2⟩

variable [DecidableEq ι] {fault : Call → UploadFailure → Prop} {jobs : ι → Job}
  {s s' : System ι Call (Share ι) UploadFailure ReplicationResult}

/-- As long as no write fails and the workers agree on the content of each file, every copy
whose worker has returned is complete, and stays so whatever the other workers do. -/
theorem returned_complete (hbegin : Begin lib jobs s) (hrun : Reaches fault s s')
    (hwrites : WritesSucceed fault) (hagree : Agree fun i => (jobs i).plan lib) {i : ι}
    {r : ReplicationResult} (hreturned : s'.workers i = .returned r)
    (htypes : ((jobs i).copy.artifacts.map (fun artifact => artifact.artifactType)).Nodup) :
    ∃ copy expected manifest,
      uploadFileset lib (jobs i).destination (jobs i).copy = .ok (copy, expected, manifest) ∧
      ∀ file ∈ expected, ∃ found,
        s'.world.tree.get (file.filename :: remoteDirectory copy.replica.remotePath) =
          some (.file (.regular found)) ∧
        found.length = file.size ∧ lib.sha256Hex found = file.sha256 := by
  obtain ⟨-, hend⟩ := hbegin.reaches True (fun _ => ⟨hwrites, hagree⟩) hrun
  have hfinished := hend i r hreturned
  obtain ⟨copy, expected, manifest, hset, hnext⟩ := hfinished.accepted
  obtain ⟨⟨-, hexpected, -⟩, -⟩ := uploadFileset_ok hset
  refine ⟨copy, expected, manifest, hset, fun file hfile => ?_⟩
  have hplan : (jobs i).plan lib = ⟨remoteDirectory copy.replica.remotePath,
      copy.artifacts.filterMap (fun artifact => ((jobs i).next lib expected artifact).toOption) ++
        [(manifestName, manifest)]⟩ := by
    unfold Job.plan
    rw [hset]
  have hknown := hfinished.files
  rw [hplan] at hknown
  rw [hexpected, List.mem_append, List.mem_singleton] at hfile
  rcases hfile with hfile | rfl
  · obtain ⟨artifact, hmem, rfl⟩ := List.mem_map.mp hfile
    obtain ⟨upload, hupload⟩ := hnext artifact hmem
    obtain ⟨hname, hsize, hhash⟩ := next_ok hset htypes hmem hupload
    obtain ⟨found, hfound, hlength, hdigest⟩ := hknown upload (List.mem_append_left _
      (List.mem_filterMap.mpr ⟨artifact, hmem, by rw [hupload]; rfl⟩)) (Or.inl trivial)
    rw [hname] at hfound
    exact ⟨found, hfound, hlength.trans hsize, hdigest.trans hhash⟩
  · exact hknown (manifestName, manifest) (List.mem_append_right _ (List.mem_singleton_self _))
      (Or.inl trivial)

theorem exampleJob_agree :
    Agree fun _ : ℕ => exampleJob.plan IntegrityAudit.exampleLibrary := by
  have hnames : ((exampleJob.plan IntegrityAudit.exampleLibrary).files.map Prod.fst).Nodup := by
    decide +kernel
  intro _ _ p content content' hfirst hsecond
  obtain ⟨name, hmem, hpath⟩ := hfirst
  obtain ⟨name', hmem', hpath'⟩ := hsecond
  obtain rfl : name = name' := (List.cons.inj (hpath.symm.trans hpath')).1
  exact congrArg Prod.snd (List.inj_on_of_nodup_map hnames hmem hmem' rfl)

/-- The copy of the first of several workers that upload it is complete when it returns. -/
theorem returned_complete_example :
    ∃ s', Reaches (fun kind _ => kind = .read) exampleStart s' ∧ ∃ copy expected manifest,
      uploadFileset IntegrityAudit.exampleLibrary exampleJob.destination exampleJob.copy =
        .ok (copy, expected, manifest) ∧
      ∀ file ∈ expected, ∃ found,
        s'.world.tree.get (file.filename :: remoteDirectory copy.replica.remotePath) =
          some (.file (.regular found)) ∧
        found.length = file.size ∧
          IntegrityAudit.exampleLibrary.sha256Hex found = file.sha256 := by
  obtain ⟨s', hrun, r, hreturned⟩ := exampleStart_returns fun kind _ => kind = .read
  exact ⟨s', hrun, returned_complete exampleStart_begin hrun (fun _ => by simp) exampleJob_agree
    hreturned (by decide)⟩

end Copies

section Alone

variable {lib : Library} {me : ι} {w : Share ι} {q path parent : List String} {name : String}
  {content : List UInt8}

/-- A whole file. -/
def Intact (lib : Library) (w : Share ι) (q : List String) (content : List UInt8) : Prop :=
  ∃ part, w.tree.get q = some (.file (.regular part)) ∧ Verified lib content part

theorem alone_look {α : Type} {kind : Call} {f : MountedTree → Except UploadFailure α} :
    (look kind f).alone w = (f w.tree, w) := alone_send

theorem alone_verifyFile (h : Intact lib w q content) :
    (verifyFile lib q content.length (lib.sha256Hex content)).alone w = (.ok .ok, w) := by
  obtain ⟨part, hpart, hlength, hhash⟩ := h
  have hsymlink : (isSymlink q).alone w = (.ok false, w) := by
    unfold isSymlink
    rw [alone_look, hpart]
    rfl
  have hregular : (isFile q).alone w = (.ok true, w) := by
    unfold isFile
    rw [alone_look, hpart]
  have hsize : (statSize q).alone w = (.ok content.length, w) := by
    unfold statSize
    rw [alone_look, hpart]
    exact congrArg (fun n => ((Except.ok n : Except UploadFailure ℕ), w)) hlength
  have hread : (readBytes q).alone w = (.ok part, w) := by
    unfold readBytes
    rw [alone_look, hpart]
  unfold verifyFile
  refine alone_handle_ok ?_
  rw [alone_bind hsymlink, if_neg Bool.false_ne_true, alone_bind hregular, if_pos rfl,
    alone_bind hsize, if_neg (not_not.mpr rfl), alone_bind hread, if_neg (not_not.mpr hhash)]
  rfl

theorem tryCreate_new {entry : Entry MountedContent} (hname : ProperName name)
    (hnone : w.tree.get (name :: parent) = none) (hparent : w.tree.get parent = some .directory) :
    tryCreate me name parent entry w = (.ok (), w.create me name parent entry) := by
  unfold tryCreate
  rw [hnone, if_neg (by simp), if_pos hname, hparent]

theorem get_create {entry : Entry MountedContent} (hnone : w.tree.get (name :: parent) = none)
    (hparent : w.tree.get parent = some .directory) (p : List String) :
    (w.create me name parent entry).tree.get p =
      if p = name :: parent then some entry else w.tree.get p :=
  FileTree.get_update (.leaf hparent (by rw [hnone]; simp)) p

theorem alone_orDirectory (h : w.tree.get path = some .directory) (e : OsError) :
    (orDirectory path (.os e)).alone w = (.ok (), w) := by
  have hthere : (isDirectory path).alone w = (.ok true, w) := by
    unfold isDirectory
    rw [alone_look, h]
    rfl
  unfold orDirectory
  rw [alone_bind hthere]
  rfl

/-- Where nothing but directories lies on the way, the directory is made. -/
theorem alone_mkdirs (hnames : ∀ name ∈ path, ProperName name)
    (hpassable : ∀ above ∈ path.tails, w.tree.get above = none ∨
      w.tree.get above = some .directory) :
    ∃ w', (mkdirs me path).alone w = (.ok (), w') ∧ w'.tree.get path = some .directory ∧
      ∀ p, p ∉ path.tails → w'.tree.get p = w.tree.get p := by
  induction path with
  | nil => exact ⟨w, alone_orDirectory w.tree.root _, w.tree.root, fun _ _ => rfl⟩
  | cons name parent ih =>
    have hself : name :: parent ∈ (name :: parent).tails := by simp
    have hparents : ∀ above ∈ parent.tails, above ∈ (name :: parent).tails := by
      intro above habove
      rw [List.tails]
      exact List.mem_cons_of_mem _ habove
    have hname := hnames name List.mem_cons_self
    unfold mkdirs
    rcases hpassable _ hself with hnone | hthere
    · rcases hpassable parent (hparents parent (by simp)) with hmissing | hparent
      · -- the directories above are made first
        obtain ⟨w₁, hrun, hmade, hsame⟩ := ih
          (fun other hmem => hnames other (List.mem_cons_of_mem _ hmem))
          fun above habove => hpassable above (hparents above habove)
        have hnone₁ : w₁.tree.get (name :: parent) = none := by
          rw [hsame _ fun hmem => ?_, hnone]
          have hlength := ((List.mem_tails _ _).mp hmem).length_le
          rw [List.length_cons] at hlength
          omega
        have hfailed : (makeDirectory me name parent).alone w =
            (.error (.os .missing), w) := by
          unfold makeDirectory
          rw [alone_send]
          unfold tryCreate
          rw [hnone, if_neg (by simp), if_pos hname, hmissing]
        have hsecond : (makeDirectory me name parent).alone w₁ =
            (.ok (), w₁.create me name parent .directory) := by
          unfold makeDirectory
          rw [alone_send, tryCreate_new hname hnone₁ hmade]
        refine ⟨w₁.create me name parent .directory, ?_, ?_, fun p hp => ?_⟩
        · rw [alone_handle_error hfailed, if_pos rfl, alone_bind hrun]
          exact alone_handle_ok hsecond
        · rw [get_create hnone₁ hmade, if_pos rfl]
        · rw [get_create hnone₁ hmade, if_neg (fun heq : p = _ => hp (heq ▸ hself)),
            hsame p fun hmem => hp (hparents p hmem)]
      · refine ⟨w.create me name parent .directory, alone_handle_ok ?_, ?_, fun p hp => ?_⟩
        · unfold makeDirectory
          rw [alone_send, tryCreate_new hname hnone hparent]
        · rw [get_create hnone hparent, if_pos rfl]
        · rw [get_create hnone hparent, if_neg fun heq : p = _ => hp (heq ▸ hself)]
    · have hfailed : (makeDirectory me name parent).alone w =
          (.error (.os .exists), w) := by
        unfold makeDirectory
        rw [alone_send]
        unfold tryCreate
        rw [hthere, if_pos (by rfl)]
      refine ⟨w, ?_, hthere, fun _ _ => rfl⟩
      rw [alone_handle_error hfailed, if_neg (by simp)]
      exact alone_orDirectory hthere _

theorem alone_rejectSymlinkPath (h : w.tree.get path = some .directory) :
    (rejectSymlinkPath path).alone w = (.ok (), w) := by
  induction path with
  | nil => rfl
  | cons name parent ih =>
    have hexists : (pathExists (name :: parent)).alone w = (.ok true, w) := by
      unfold pathExists
      rw [alone_look, h]
      rfl
    have hsymlink : (isSymlink (name :: parent)).alone w = (.ok false, w) := by
      unfold isSymlink
      rw [alone_look, h]
      rfl
    unfold rejectSymlinkPath
    rw [alone_bind (ih (w.tree.closed name parent (by rw [h]; rfl))), alone_bind hexists,
      if_pos rfl, alone_bind hsymlink]
    rfl

variable [DecidableEq ι] {cut : List UInt8 → ℕ} {depth : ℕ}

/-- A new file is written in full. -/
theorem alone_writeNewFile (hname : ProperName name)
    (hnone : w.tree.get (name :: parent) = none) (hparent : w.tree.get parent = some .directory) :
    ∃ w', (writeNewFile me cut name parent content).alone w = (.ok (), w') ∧
      ∀ p, w'.tree.get p =
        if p = name :: parent then some (.file (.regular content)) else w.tree.get p := by
  have hopen : (openNew me name parent).alone w =
      (.ok (), w.create me name parent (.file (.regular []))) := by
    unfold openNew
    rw [alone_send, tryCreate_new hname hnone hparent]
  have hwrite : ∀ (v : Share ι) (part more : List UInt8),
      Owns me (name :: parent) (.file (.regular part)) v →
        (writeBytes me name parent more).alone v = (.ok (), v.fill name parent more) ∧
          Owns me (name :: parent) (.file (.regular more)) (v.fill name parent more) := by
    intro v part more hown
    refine ⟨?_, get_fill more hown.1, hown.2⟩
    unfold writeBytes
    rw [alone_send, if_pos hown.2]
  have hown : Owns me (name :: parent) (.file (.regular []))
      (w.create me name parent (.file (.regular []))) :=
    ⟨by rw [get_create hnone hparent, if_pos rfl], if_pos rfl⟩
  obtain ⟨hfirst, hown₁⟩ := hwrite _ [] (content.take (cut content)) hown
  obtain ⟨hsecond, hown₂⟩ := hwrite _ _ content hown₁
  refine ⟨((w.create me name parent (.file (.regular []))).fill name parent
    (content.take (cut content))).fill name parent content, ?_, fun p => ?_⟩
  · unfold writeNewFile
    rw [alone_bind hopen]
    refine alone_handle_ok ?_
    rw [alone_bind hfirst, alone_bind hsecond]
    exact alone_send
  · by_cases hp : p = name :: parent
    · subst hp
      rw [if_pos rfl]
      exact hown₂.1
    · rw [if_neg hp]
      unfold Share.fill
      dsimp only
      rw [FileTree.get_update_of_ne hp, FileTree.get_update_of_ne hp, get_create hnone hparent,
        if_neg hp]

/-- A file that is whole is left, and one that is absent is uploaded. -/
theorem alone_putImmutable (hname : ProperName name) (hparent : w.tree.get path = some .directory)
    (h : w.tree.get (name :: path) = none ∨ Intact lib w (name :: path) content) :
    ∃ created w', (putImmutable me cut lib path name content (lib.sha256Hex content)
        (depth + 1)).alone w = (.ok created, w') ∧
      ∀ p, p ≠ name :: path → w'.tree.get p = w.tree.get p := by
  have hexists : (pathExists (name :: path)).alone w =
      (.ok (w.tree.get (name :: path)).isSome, w) := by
    unfold pathExists
    rw [alone_look]
  unfold putImmutable
  rw [alone_bind hexists]
  rcases h with hnone | hintact
  · rw [hnone, if_neg (by simp)]
    obtain ⟨w', hwrite, hafter⟩ := @alone_writeNewFile ι me w path name content _ cut hname hnone
      hparent
    have htaken : (handle (fun e => if e = .os .exists then pure true else raise e)
        (do writeNewFile me cut name path content; pure false) : Upload ι Bool).alone w =
          (.ok false, w') := by
      refine alone_handle_ok ?_
      rw [alone_bind hwrite]
      rfl
    have hintact : Intact lib w' (name :: path) content :=
      ⟨content, by rw [hafter, if_pos rfl], rfl, rfl⟩
    refine ⟨true, w', ?_, fun p hp => by rw [hafter, if_neg hp]⟩
    rw [alone_bind htaken, if_neg Bool.false_ne_true, alone_bind (alone_verifyFile hintact),
      if_pos rfl]
    rfl
  · obtain ⟨part, hpart, -⟩ := id hintact
    refine ⟨false, w, ?_, fun _ _ => rfl⟩
    rw [hpart, if_pos (by rfl), alone_bind (alone_verifyFile hintact), if_pos rfl]
    rfl

/-- Files of different names, none of which is in the way, are uploaded one after the other. -/
theorem alone_uploadArtifacts {read : String → Option (List UInt8)} {maxArtifactSize : ℕ}
    {expected : List ExpectedRemoteFile} {artifacts : List ConfigArtifact}
    {uploads : List (String × List UInt8)} (transferred : ℕ)
    (huploads : artifacts.map (nextUpload lib read maxArtifactSize expected) = uploads.map .ok)
    (hnames : (uploads.map Prod.fst).Nodup) (hproper : ∀ upload ∈ uploads, ProperName upload.1)
    (hpath : w.tree.get path = some .directory)
    (hfiles : ∀ upload ∈ uploads, w.tree.get (upload.1 :: path) = none ∨
      Intact lib w (upload.1 :: path) upload.2) :
    ∃ n w', (uploadArtifacts me cut lib path read maxArtifactSize (depth + 1) expected artifacts
        transferred).alone w = (.ok n, w') ∧
      ∀ p, (∀ upload ∈ uploads, p ≠ upload.1 :: path) → w'.tree.get p = w.tree.get p := by
  induction uploads generalizing artifacts w transferred with
  | nil =>
    obtain rfl : artifacts = [] := by simpa using huploads
    exact ⟨transferred, w, rfl, fun _ _ => rfl⟩
  | cons upload uploads ih =>
    obtain ⟨artifact, rest, rfl, hnext, hrest⟩ := List.map_eq_cons_iff.mp huploads
    obtain ⟨name, content⟩ := upload
    rw [List.map_cons, List.nodup_cons] at hnames
    have hdifferent : ∀ upload ∈ uploads, upload.1 :: path ≠ name :: path := by
      intro upload hmem heq
      exact hnames.1 (List.mem_map.mpr ⟨upload, hmem, (List.cons.inj heq).1⟩)
    obtain ⟨created, w₁, hput, hsame⟩ := @alone_putImmutable ι lib me w path name content _ cut depth
      (hproper _ List.mem_cons_self) hpath (hfiles _ List.mem_cons_self)
    have hpath₁ : w₁.tree.get path = some .directory := by
      rw [hsame _ (List.cons_ne_self _ _).symm, hpath]
    obtain ⟨n, w', hrun, hsame'⟩ := @ih w₁ rest
      (if created then transferred + content.length else transferred) hrest hnames.2
      (fun upload hmem => hproper upload (List.mem_cons_of_mem _ hmem)) hpath₁
      fun upload hmem => by
        have hget := hsame _ (hdifferent upload hmem)
        rcases hfiles upload (List.mem_cons_of_mem _ hmem) with hnone | ⟨part, hpart, hverified⟩
        · exact Or.inl (hget.trans hnone)
        · exact Or.inr ⟨part, hget.trans hpart, hverified⟩
    refine ⟨n, w', ?_, fun p hp => ?_⟩
    · unfold uploadArtifacts
      rw [hnext]
      dsimp only
      rw [alone_bind hput]
      exact hrun
    · rw [hsame' p fun upload hmem => hp upload (List.mem_cons_of_mem _ hmem),
        hsame p (hp _ List.mem_cons_self)]

end Alone

section Recovery

variable [DecidableEq ι] {lib : Library} {job : Job} {fault : Call → UploadFailure → Prop}
  {jobs : ι → Job} {s s' : System ι Call (Share ι) UploadFailure ReplicationResult}

/-- The files of an upload have different names, each of one component. -/
structure Named (plan : Plan) : Prop where
  nodup : (plan.files.map Prod.fst).Nodup
  proper : ∀ file ∈ plan.files, ProperName file.1

/-- What was there allows the upload: it passes its checks, only directories lie on its way, and
each of its files is absent or whole. -/
structure Recoverable (lib : Library) (job : Job) (w : Share ι) : Prop where
  accepted : ∃ copy expected manifest,
    uploadFileset lib job.destination job.copy = .ok (copy, expected, manifest) ∧
      ∀ artifact ∈ copy.artifacts, ∃ upload, job.next lib expected artifact = .ok upload
  root : job.root = .ok ()
  passable : ∀ above ∈ (job.plan lib).directory.tails,
    w.tree.get above = none ∨ w.tree.get above = some .directory
  files : ∀ file ∈ (job.plan lib).files,
    w.tree.get (file.1 :: (job.plan lib).directory) = none ∨
      Intact lib w (file.1 :: (job.plan lib).directory) file.2

theorem alone_worker {w : Share ι} {me : ι} (hnamed : Named (job.plan lib)) (hdepth : 0 < job.depth)
    (h : Recoverable lib job w) : ∃ r w', (job.worker lib me).alone w = (.ok r, w') := by
  obtain ⟨copy, expected, manifest, hset, hnext⟩ := h.accepted
  obtain ⟨depth, hdepth⟩ := Nat.exists_eq_succ_of_ne_zero hdepth.ne'
  obtain ⟨-, hdirectory⟩ := uploadFileset_ok hset
  have hplan : job.plan lib = ⟨remoteDirectory copy.replica.remotePath,
      copy.artifacts.filterMap (fun artifact => (job.next lib expected artifact).toOption) ++
        [(manifestName, manifest)]⟩ := by
    unfold Job.plan
    rw [hset]
  obtain ⟨uploads, huploads⟩ : ∃ uploads : List (String × List UInt8),
      copy.artifacts.map (job.next lib expected) = uploads.map .ok := by
    choose! upload hupload using hnext
    exact ⟨copy.artifacts.map upload, by
      rw [List.map_map]
      exact List.map_congr_left fun artifact hmem => hupload artifact hmem⟩
  have hfiltered : copy.artifacts.filterMap
      (fun artifact => (job.next lib expected artifact).toOption) = uploads := by
    have hmap := congrArg (List.filterMap Except.toOption) huploads
    rw [List.filterMap_map, List.filterMap_map] at hmap
    exact hmap.trans (by simp [Function.comp_def, Except.toOption])
  rw [hfiltered] at hplan
  have hfiles := h.files
  have hnodup := hnamed.nodup
  have hproper := hnamed.proper
  have hpassable := h.passable
  rw [hplan] at hfiles hnodup hproper hpassable
  rw [List.map_append, List.nodup_append] at hnodup
  obtain ⟨w₁, hmkdirs, hmade, hsame⟩ := @alone_mkdirs ι me w (remoteDirectory copy.replica.remotePath)
    hdirectory hpassable
  have hbelow : ∀ name : String, name :: remoteDirectory copy.replica.remotePath ∉
      (remoteDirectory copy.replica.remotePath).tails := by
    intro name hmem
    have hlength := ((List.mem_tails _ _).mp hmem).length_le
    rw [List.length_cons] at hlength
    omega
  have hfiles₁ : ∀ file ∈ uploads ++ [(manifestName, manifest)],
      w₁.tree.get (file.1 :: remoteDirectory copy.replica.remotePath) = none ∨
        Intact lib w₁ (file.1 :: remoteDirectory copy.replica.remotePath) file.2 := by
    intro file hmem
    have hget := hsame _ (hbelow file.1)
    rcases hfiles file hmem with hnone | ⟨part, hpart, hverified⟩
    · exact Or.inl (hget.trans hnone)
    · exact Or.inr ⟨part, hget.trans hpart, hverified⟩
  have hmanifest : (manifestName, manifest) ∈ uploads ++ [(manifestName, manifest)] :=
    List.mem_append_right _ (List.mem_singleton_self _)
  obtain ⟨n, w₂, hartifacts, hsame₂⟩ := @alone_uploadArtifacts ι lib me w₁
    (remoteDirectory copy.replica.remotePath) _ job.cut depth job.read
    job.destination.maxArtifactSize expected copy.artifacts uploads 0 huploads hnodup.1
    (fun upload hmem => hproper upload (List.mem_append_left _ hmem)) hmade
    fun upload hmem => hfiles₁ upload (List.mem_append_left _ hmem)
  have hmade₂ : w₂.tree.get (remoteDirectory copy.replica.remotePath) = some .directory := by
    rw [hsame₂ _ fun _ _ => (List.cons_ne_self _ _).symm, hmade]
  have hget₂ := hsame₂ (manifestName :: remoteDirectory copy.replica.remotePath)
    fun upload hmem heq => hnodup.2.2 upload.1 (List.mem_map_of_mem hmem) manifestName
      (by simp) (List.cons.inj heq).1.symm
  obtain ⟨created, w₃, hput, -⟩ := @alone_putImmutable ι lib me w₂
    (remoteDirectory copy.replica.remotePath) manifestName manifest _ job.cut depth
    (hproper _ hmanifest) hmade₂ (by
      rcases hfiles₁ _ hmanifest with hnone | ⟨part, hpart, hverified⟩
      · exact Or.inl (hget₂.trans hnone)
      · exact Or.inr ⟨part, hget₂.trans hpart, hverified⟩)
  refine ⟨⟨copy.replica.remotePath, if created then n + manifest.length else n,
    copy.artifacts.length⟩, w₃, ?_⟩
  unfold Job.worker replicateRevisionMounted
  rw [hset, h.root, hdepth]
  dsimp only
  unfold uploadFiles
  refine alone_handle_ok ?_
  rw [alone_bind hmkdirs, alone_bind (alone_rejectSymlinkPath hmade), alone_bind hartifacts,
    alone_bind hput]
  rfl

end Recovery

end ConfigBackup.SharedMount
