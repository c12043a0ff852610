import ConfigBackup.BackfillFlags

/-!
The backfill started again after aborted runs. The rows and files of its loop end as in a
single run. The change flags do so for the targets that the last run has worked on; for a
target that the aborted runs finished they stay as they were.
-/

namespace ConfigBackup.BackfillRestart

open BackfillFlags BackupPipeline Calendar CeragonBackfill CeragonDumps LocalStorage Models
  NewestCopies NewestFirst PipelineStorage PosixPaths ResumableLoops RevisionChain RunLifecycle
  Tables Transactions

section Runs

variable (env : BackfillEnvironment) (revisionId : Option ℕ)

/-- The revisions that a run with these rows passes through. -/
def queuedKeys (db : Database) : List ℕ := (backfillQueryset db revisionId).map (fun r => r.pk)

/-- Some revision of the target has no dump yet. -/
def affected (db : Database) (targetId : ℕ) : Bool :=
  (backfillQueryset db revisionId).any (fun r => r.target == targetId && !hasDump db r.pk)

/-- A run with `--apply` that returns. -/
def Completes (before after : Stored) : Prop :=
  ∃ faults calls summary endCalls, handle env faults true revisionId ⟨before.1, before.2, calls⟩ =
    .ok summary ⟨after.1, after.2, endCalls⟩

/-- A run with `--apply` that raises, though not for its database. -/
def Aborts (before after : Stored) : Prop :=
  ∃ faults calls e endCalls, e ≠ .database ∧
    handle env faults true revisionId ⟨before.1, before.2, calls⟩ =
      .error e ⟨after.1, after.2, endCalls⟩

/-- Aborted runs one after the other. -/
inductive AbortedRuns (start : Stored) : Stored → Prop
  | start : AbortedRuns start start
  | abort {s t : Stored} : AbortedRuns start s → Aborts env revisionId s t → AbortedRuns start t

end Runs

section Frame

variable {env : BackfillEnvironment} {i j : ℕ} {s t : Stored} {revisionId : Option ℕ}

theorem artifactsOf_of_turn (h : turn env i s = some t) (hj : j ≠ i) :
    t.1.artifactsOf j = s.1.artifactsOf j := by
  rcases turn_cases h with ⟨_, rfl⟩ | ⟨_, dump, _, _, _, hrows⟩
  · rfl
  · rw [hrows]
    exact artifactsOf_addDump hj

/-- The revisions keep their order and their targets. -/
def SameRevisions (a b : Database) : Prop :=
  ∃ g : ConfigRevision → ConfigRevision, (∀ r, SameStamp (g r) r) ∧
    b.revisions.rows = a.revisions.rows.map g

theorem sameRevisions_refl (db : Database) : SameRevisions db db :=
  ⟨id, fun _ => ⟨rfl, rfl, rfl, rfl⟩, (List.map_id _).symm⟩

theorem SameStamp.trans {a b c : ConfigRevision} (h : SameStamp a b) (h' : SameStamp b c) :
    SameStamp a c :=
  ⟨h.1.trans h'.1, h.2.1.trans h'.2.1, h.2.2.1.trans h'.2.2.1, h.2.2.2.trans h'.2.2.2⟩

theorem SameRevisions.trans {a b c : Database} (h : SameRevisions a b) (h' : SameRevisions b c) :
    SameRevisions a c := by
  obtain ⟨g, hg, hrows⟩ := h
  obtain ⟨g', hg', hrows'⟩ := h'
  refine ⟨g' ∘ g, fun r => SameStamp.trans (hg' (g r)) (hg r), ?_⟩
  rw [hrows', hrows, List.map_map]

theorem sameRevisions_addDump (dump : ExtractedDump) (db : Database) :
    SameRevisions db (addDump env i dump db) := by
  refine ⟨fun r => if r.pk = i then { r with
    normalizedHash := dump.normalizedHash
    normalizerVersion := env.driver.normalizerVersion } else r, fun r => ?_, rfl⟩
  dsimp only
  split <;> exact ⟨rfl, rfl, rfl, rfl⟩

theorem sameRevisions_turn (h : turn env i s = some t) : SameRevisions s.1 t.1 := by
  rcases turn_cases h with ⟨_, hsame⟩ | ⟨_, dump, _, _, _, hrows⟩
  · rw [hsame]
    exact sameRevisions_refl s.1
  · rw [hrows]
    exact sameRevisions_addDump dump s.1

theorem sameRevisions_run {keys : List ℕ} (h : (backfillLoop env).run keys s = some t) :
    SameRevisions s.1 t.1 := by
  induction keys generalizing s with
  | nil =>
    cases h
    exact sameRevisions_refl _
  | cons i rest ih =>
    obtain ⟨u, hturn, hrest⟩ := Option.bind_eq_some_iff.mp h
    exact (sameRevisions_turn hturn).trans (ih hrest)

theorem sameRevisions_interrupted {keys : List ℕ}
    (h : (backfillLoop env).Interrupted keys s t) : SameRevisions s.1 t.1 := by
  obtain ⟨front, i, rest, u, _, hrun, hresidue⟩ := h
  have hrows := sameRevisions_run hrun
  rcases hresidue with rfl | ⟨_, hsame, _⟩
  · exact hrows
  · rw [hsame]
    exact hrows

theorem backfillQueryset_map {a b : Database} {g : ConfigRevision → ConfigRevision}
    (hg : ∀ r, SameStamp (g r) r) (h : b.revisions.rows = a.revisions.rows.map g) :
    backfillQueryset b revisionId = (backfillQueryset a revisionId).map g := by
  have hsame : ((fun r : ConfigRevision => r.driverId == "ceragon_ip50" &&
      revisionId.all (fun pk => pk == 0 || r.pk == pk)) ∘ g) =
      fun r => r.driverId == "ceragon_ip50" &&
        revisionId.all (fun pk => pk == 0 || r.pk == pk) := by
    funext r
    rw [Function.comp_apply, (hg r).1, (hg r).2.2.2]
  have hearlier : ∀ x y, earlier (g x) (g y) ↔ earlier x y := by
    intro x y
    unfold earlier
    rw [(hg x).2.1, (hg y).2.1, older_iff_of_sameStamp hg]
  unfold backfillQueryset newestFirst
  rw [h, List.filter_map, hsame]
  refine (List.map_insertionSort _ _ _ _ (fun x _ y _ => ?_)).symm
  exact not_congr (hearlier y x).symm

theorem queuedKeys_of_sameRevisions {a b : Database} (h : SameRevisions a b) :
    queuedKeys revisionId b = queuedKeys revisionId a := by
  obtain ⟨g, hg, hrows⟩ := h
  unfold queuedKeys
  rw [backfillQueryset_map hg hrows, List.map_map]
  exact List.map_congr_left (fun r _ => (hg r).1)

theorem mem_backfillQueryset {db : Database} {r : ConfigRevision}
    (h : r ∈ backfillQueryset db revisionId) : r ∈ db.revisions := by
  unfold backfillQueryset at h
  exact (List.mem_filter.mp (mem_newestFirst.mp h)).1

theorem keys_backfillQueryset (db : Database) (revisionId : Option ℕ) :
    (backfillQueryset db revisionId).Pairwise (fun a b => a.pk ≠ b.pk) := by
  have hkeys : db.revisions.rows.Pairwise (fun a b => a.pk ≠ b.pk) :=
    db.revisions.sorted.imp (fun h => Nat.ne_of_lt h)
  exact ((newestFirst_perm _).pairwise_iff (fun h => Ne.symm h)).mpr (hkeys.filter _)

/-- Finishing revisions affects no further target. -/
theorem affected_of_later {a b : Database} {targetId : ℕ} (h : SameRevisions a b)
    (hkeeps : ∀ k, hasDump a k = true → hasDump b k = true)
    (hb : affected revisionId b targetId = true) : affected revisionId a targetId = true := by
  obtain ⟨g, hg, hrows⟩ := h
  unfold affected at hb ⊢
  rw [backfillQueryset_map hg hrows, List.any_map, List.any_eq_true] at hb
  obtain ⟨r, hr, hmissing⟩ := hb
  rw [Function.comp_apply, (hg r).1, (hg r).2.1] at hmissing
  obtain ⟨htarget, hnone⟩ := Bool.and_eq_true_iff.mp hmissing
  refine List.any_eq_true.mpr ⟨r, hr, ?_⟩
  rw [htarget, Bool.true_and, Bool.not_eq_true', ← Bool.not_eq_true]
  intro hdump
  rw [hkeeps r.pk hdump] at hnone
  cases hnone

end Frame

section Command

variable {env : BackfillEnvironment} {faults : BackfillFaults} {rows db : Database}
  {objects : Objects} {revisionId : Option ℕ}

theorem mem_affectedTargetIds_add {p : BackfillProgress} {targetId revisionTarget : ℕ}
    {dumped : Bool} :
    targetId ∈ (p.add revisionTarget (if dumped then .existing else .migrated)).affectedTargetIds ↔
      targetId ∈ p.affectedTargetIds ∨ (revisionTarget = targetId ∧ dumped = false) := by
  cases dumped with
  | true => simp [BackfillProgress.add]
  | false => simp [BackfillProgress.add, List.mem_insert_iff, or_comm, eq_comm]

/-- The loop of the command is a run over the keys, or one that was interrupted. -/
theorem triple_backfillRevisions {l : List ConfigRevision} {p : BackfillProgress}
    (hrows : ∀ r ∈ l, rows.artifactsOf r.pk = db.artifactsOf r.pk)
    (hkeys : l.Pairwise (fun a b => a.pk ≠ b.pk)) :
    Triple (fun d w => d = db ∧ w = objects) (backfillRevisions env faults true rows l p)
      (fun p' d w => (backfillLoop env).run (l.map (fun r => r.pk)) (db, objects) = some (d, w) ∧
        ∀ targetId, targetId ∈ p'.affectedTargetIds ↔ targetId ∈ p.affectedTargetIds ∨
          ∃ r ∈ l, r.target = targetId ∧ hasDump rows r.pk = false)
      (fun d w => (backfillLoop env).Interrupted (l.map (fun r => r.pk)) (db, objects) (d, w)) := by
  induction l generalizing db objects p with
  | nil =>
    refine triple_pure (fun d w h => ⟨?_, by simp⟩)
    rw [h.1, h.2]
    rfl
  | cons r rest ih =>
    obtain ⟨hfresh, hkeys⟩ := List.pairwise_cons.mp hkeys
    intro s hs
    have hfirst := @triple_backfillRevision env faults r.pk rows db objects
      (hrows r List.mem_cons_self) s hs
    unfold backfillRevisions
    cases hrun : backfillRevision env faults true rows r.pk s with
    | error e t =>
      rw [hrun] at hfirst
      rw [bind_of_error hrun]
      exact Loop.interrupted_here hfirst
    | ok result t =>
      rw [hrun] at hfirst
      obtain ⟨hturn, hresult⟩ := hfirst
      rw [bind_of_ok hrun]
      have hrest := @ih t.db t.world (p.add r.target result) (fun other hother => by
        rw [artifactsOf_of_turn hturn (Ne.symm (hfresh other hother))]
        exact hrows other (List.mem_cons_of_mem r hother)) hkeys t ⟨rfl, rfl⟩
      cases hlater : backfillRevisions env faults true rows rest (p.add r.target result) t with
      | error e u =>
        rw [hlater] at hrest
        exact Loop.interrupted_later hturn hrest
      | ok p' u =>
        rw [hlater] at hrest
        refine ⟨Option.bind_eq_some_iff.mpr ⟨_, hturn, hrest.1⟩, fun targetId => ?_⟩
        have hdump : hasDump rows r.pk = hasDump db r.pk := by
          unfold hasDump
          rw [hrows r List.mem_cons_self]
        rw [hrest.2 targetId, hresult, ← hdump, mem_affectedTargetIds_add, List.exists_mem_cons_iff,
          or_assoc]

theorem mem_affected {targetId : ℕ} : affected revisionId db targetId = true ↔
    ∃ r ∈ backfillQueryset db revisionId, r.target = targetId ∧ hasDump db r.pk = false := by
  unfold affected
  simp

theorem transact_recompute (faults : BackfillFaults) (targetId : ℕ) (s : Session Database Objects) :
    transact faults.call BackfillFailure.database
      (fun db => .ok ((), recomputeChangeFlags db targetId)) s =
      if faults.call s.calls then .error .database { s with calls := s.calls + 1 }
      else .ok () { s with db := recomputeChangeFlags s.db targetId, calls := s.calls + 1 } := rfl

/-- The flags are computed for one target after the other. -/
theorem recomputeTargets_cases {targets : List ℕ} {p : ℕ → Bool} {M : Database}
    {s : Session Database Objects} (hs : s.db = flagged M p) :
    match recomputeTargets faults targets s with
    | .error e _ => e = .database ∧ ∃ n, faults.call n = true
    | .ok _ t => t.db = flagged M (fun x => p x || targets.contains x) ∧ t.world = s.world := by
  induction targets generalizing p s with
  | nil =>
    refine ⟨?_, rfl⟩
    simp only [List.contains_nil, Bool.or_false]
    exact hs
  | cons targetId rest ih =>
    have hturn := transact_recompute faults targetId s
    unfold recomputeTargets
    by_cases hfails : faults.call s.calls = true
    · rw [if_pos hfails] at hturn
      rw [bind_of_error hturn]
      exact ⟨rfl, s.calls, hfails⟩
    · rw [if_neg hfails] at hturn
      rw [bind_of_ok hturn]
      have hmore : (fun x => (p x || x == targetId) || rest.contains x) =
          fun x => p x || (targetId :: rest).contains x := by
        funext x
        rw [List.contains_cons, Bool.or_assoc]
      have hrest := @ih (fun x => p x || x == targetId)
        { s with db := recomputeChangeFlags s.db targetId, calls := s.calls + 1 } (by
          rw [hs]
          exact recompute_flagged)
      rw [hmore] at hrest
      exact hrest

/-- A run ends with the loop done and the flags of the affected targets computed; when it
raises, its loop was interrupted, unless the database failed. -/
theorem handle_cases (env : BackfillEnvironment) (faults : BackfillFaults)
    (revisionId : Option ℕ) (s : Session Database Objects) :
    match handle env faults true revisionId s with
    | .error e t => e ≠ .database → (backfillLoop env).Interrupted (queuedKeys revisionId s.db)
        (s.db, s.world) (t.db, t.world)
    | .ok _ t => ∃ M, (backfillLoop env).run (queuedKeys revisionId s.db) (s.db, s.world) =
        some (M, t.world) ∧ t.db = flagged M (affected revisionId s.db) := by
  have hselect : (select faults.call BackfillFailure.database id :
      Program Database Objects BackfillFailure Database) s =
      if faults.call s.calls then .error .database { s with calls := s.calls + 1 }
      else .ok s.db { s with calls := s.calls + 1 } := rfl
  unfold handle
  by_cases hfails : faults.call s.calls = true
  · rw [if_pos hfails] at hselect
    rw [bind_of_error hselect]
    exact fun h => absurd rfl h
  · rw [if_neg hfails] at hselect
    rw [bind_of_ok hselect]
    have hloop := @triple_backfillRevisions env faults s.db s.db s.world
      (backfillQueryset s.db revisionId) ⟨⟨0, 0, 0⟩, []⟩ (fun _ _ => rfl)
      (keys_backfillQueryset s.db revisionId) { s with calls := s.calls + 1 } ⟨rfl, rfl⟩
    cases hrun : backfillRevisions env faults true s.db (backfillQueryset s.db revisionId)
        ⟨⟨0, 0, 0⟩, []⟩ { s with calls := s.calls + 1 } with
    | error e t =>
      rw [hrun] at hloop
      rw [bind_of_error hrun]
      exact fun _ => hloop
    | ok p t =>
      rw [hrun] at hloop
      rw [bind_of_ok hrun, if_pos rfl]
      obtain ⟨hkeys, haffected⟩ := hloop
      have hflags := @recomputeTargets_cases faults (env.order p.affectedTargetIds)
        (fun _ => false) t.db t (flagged_none t.db).symm
      cases hrecompute : recomputeTargets faults (env.order p.affectedTargetIds) t with
      | error e u =>
        rw [hrecompute] at hflags
        rw [bind_of_error hrecompute]
        exact fun h => absurd hflags.1 h
      | ok _ u =>
        rw [hrecompute] at hflags
        rw [bind_of_ok hrecompute]
        have hsame : (fun x => false || (env.order p.affectedTargetIds).contains x) =
            affected revisionId s.db := by
          funext x
          rw [Bool.false_or, Bool.eq_iff_iff, List.contains_iff_mem,
            (env.order_perm _).mem_iff, haffected x, mem_affected]
          simp
        rw [hsame] at hflags
        refine ⟨t.db, ?_, hflags.1⟩
        show _ = some (t.db, u.world)
        rw [hflags.2]
        exact hkeys

end Command

section FinishedTargets

variable {env : BackfillEnvironment} {targetId i : ℕ} {s t : Stored} {revisionId : Option ℕ}

/-- The rows that the flags of a target are about. -/
def SameTarget (targetId : ℕ) (a b : Database) : Prop :=
  ceragonRevisions b targetId = ceragonRevisions a targetId ∧ b.runs = a.runs ∧
    b.targets = a.targets

theorem SameTarget.trans {a b c : Database} (h : SameTarget targetId a b)
    (h' : SameTarget targetId b c) : SameTarget targetId a c :=
  ⟨h'.1.trans h.1, h'.2.1.trans h.2.1, h'.2.2.trans h.2.2⟩

theorem FlagsConsistent.of_sameTarget {a b : Database} (h : SameTarget targetId a b)
    (hb : FlagsConsistent b targetId) : FlagsConsistent a targetId := by
  have hflags : targetFlags b targetId = targetFlags a targetId := by
    unfold targetFlags
    rw [h.1]
  constructor
  · rw [← hflags]
    exact hb.flags
  · rw [← hflags, ← h.2.1]
    exact hb.runs
  · rw [← hflags, ← h.2.2]
    exact hb.lastChange

theorem SameTarget.symm {a b : Database} (h : SameTarget targetId a b) :
    SameTarget targetId b a :=
  ⟨h.1.symm, h.2.1.symm, h.2.2.symm⟩

/-- A turn on a revision of another target. -/
theorem sameTarget_addDump {dump : ExtractedDump} {db : Database}
    (hother : ∀ r ∈ db.revisions, r.pk = i → r.target ≠ targetId) :
    SameTarget targetId db (addDump env i dump db) := by
  refine ⟨?_, rfl, rfl⟩
  have hrows : ceragonRevisions (addDump env i dump db) targetId =
      (ceragonRevisions db targetId).map (fun r => if r.pk = i then { r with
        normalizedHash := dump.normalizedHash
        normalizerVersion := env.driver.normalizerVersion } else r) := by
    refine ceragonRevisions_map (fun r => ?_) rfl
    split <;> exact ⟨rfl, rfl, rfl, rfl⟩
  rw [hrows]
  refine (List.map_congr_left (fun r hr => ?_)).trans (List.map_id _)
  obtain ⟨hmem, htarget, _⟩ := mem_ceragonRevisions.mp hr
  rw [if_neg (fun hpk => hother r hmem hpk htarget)]
  rfl

/-- A run passes over a target whose revisions all have their dumps. -/
theorem sameTarget_run {l : List ConfigRevision}
    (howner : ∀ r ∈ l, ∀ row ∈ s.1.revisions, row.pk = r.pk → row.target = r.target)
    (hdone : ∀ r ∈ l, r.target = targetId → hasDump s.1 r.pk = true)
    (h : (backfillLoop env).run (l.map (fun r => r.pk)) s = some t) :
    SameTarget targetId s.1 t.1 := by
  induction l generalizing s with
  | nil =>
    cases h
    exact ⟨rfl, rfl, rfl⟩
  | cons r rest ih =>
    obtain ⟨u, hturn, hrest⟩ := Option.bind_eq_some_iff.mp h
    have hturn : turn env r.pk s = some u := hturn
    obtain ⟨g, hg, hrows⟩ := sameRevisions_turn hturn
    have hlater : SameTarget targetId u.1 t.1 := by
      refine ih (fun other hother row hrow hpk => ?_) (fun other hother htarget => ?_) hrest
      · rw [Table.mem_iff, hrows] at hrow
        obtain ⟨source, hsource, rfl⟩ := List.mem_map.mp hrow
        rw [(hg source).2.1]
        exact howner other (List.mem_cons_of_mem r hother) source hsource
          ((hg source).1.symm.trans hpk)
      · exact (hasDump_of_turn hturn).mpr
          (Or.inl (hdone other (List.mem_cons_of_mem r hother) htarget))
    rcases turn_cases hturn with ⟨_, rfl⟩ | ⟨hnone, dump, _, _, _, hadd⟩
    · exact hlater
    · have hother : r.target ≠ targetId := by
        intro htarget
        rw [hdone r List.mem_cons_self htarget] at hnone
        cases hnone
      rw [hadd] at hlater
      refine (sameTarget_addDump (fun row hrow hpk => ?_)).trans hlater
      rw [howner r List.mem_cons_self row hrow hpk]
      exact hother

theorem sameTarget_of_not_affected
    (h : (backfillLoop env).run (queuedKeys revisionId s.1) s = some t)
    (hdone : affected revisionId s.1 targetId = false) : SameTarget targetId s.1 t.1 := by
  refine sameTarget_run (fun r hr row hrow hpk => ?_) (fun r hr htarget => ?_) h
  · rw [s.1.revisions.eq_of_key_eq hrow (mem_backfillQueryset hr) hpk]
  · rw [← Bool.not_eq_false]
    intro hnone
    rw [mem_affected.mpr ⟨r, hr, htarget, hnone⟩] at hdone
    cases hdone

end FinishedTargets

section WithoutFaults

variable {env : BackfillEnvironment} {rows db db' : Database} {w w' : Objects} {s t : Stored}
  {revisionId : Option ℕ} {i n : ℕ} {dump : ExtractedDump} {path : Path}

def noFaults : BackfillFaults := ⟨fun _ => false, fun _ => none⟩

theorem action_noFaults {α : Type} {failure : BackfillFailure}
    {f : Objects → Except BackfillFailure (α × Objects)} {a : α} (h : f w = .ok (a, w')) :
    action noFaults.call failure f (⟨db, w, n⟩ : Session Database Objects) =
      .ok a ⟨db, w', n + 1⟩ := by
  unfold action
  rw [if_neg (by exact Bool.false_ne_true)]
  dsimp only
  rw [h]

theorem readStorage_noFaults {α : Type} {f : Path → Objects → Except BackfillFailure α}
    {key : String} {a : α} (hpath : localPath key = some path) (h : f path w = .ok a) :
    readStorage noFaults f key ⟨db, w, n⟩ = .ok a ⟨db, w, n + 1⟩ := by
  refine action_noFaults ?_
  rw [hpath]
  dsimp only
  rw [h]
  rfl

theorem storeDump_noFaults (h : storedObjects env dump w = some w') :
    ∃ created m, storeDump noFaults env i dump ⟨db, w, n⟩ = .ok created ⟨db, w', m⟩ := by
  obtain ⟨path, hpath, hstored⟩ := Option.bind_eq_some_iff.mp h
  have hexists : existsObject noFaults dump.key ⟨db, w, n⟩ =
      .ok (w path).isSome ⟨db, w, n + 1⟩ := readStorage_noFaults hpath rfl
  unfold storeDump
  rw [bind_of_ok hexists]
  cases hread : w path with
  | none =>
    rw [hread] at hstored
    cases hstored
    refine ⟨true, n + 2, ?_⟩
    have hput : putObject noFaults dump.key dump.configuration ⟨db, w, n + 1⟩ =
        .ok () ⟨db, withObject w path dump.configuration, n + 2⟩ := by
      unfold putObject put noFaults
      dsimp only
      rw [hpath]
      rfl
    rw [if_neg (by exact Bool.false_ne_true), bind_of_ok hput]
    rfl
  | some stored =>
    rw [hread] at hstored
    have hfetch : fetchObject noFaults dump.key ⟨db, w, n + 1⟩ =
        .ok stored ⟨db, w, n + 2⟩ := by
      refine readStorage_noFaults hpath ?_
      rw [hread]
    rw [if_pos (by rfl), bind_of_ok hfetch]
    dsimp only at hstored
    by_cases hdiffers : (stored.length != dump.configuration.length ||
        env.sha256Hex stored != dump.rawHash) = true
    · rw [if_pos hdiffers] at hstored
      cases hstored
    · rw [if_neg hdiffers] at hstored ⊢
      cases hstored
      exact ⟨false, n + 2, rfl⟩

theorem commitTurn_noFaults {created : Bool} (h : commitDump env i dump db = .ok (false, db')) :
    commitTurn noFaults env i dump created ⟨db, w, n⟩ = .ok .migrated ⟨db', w, n + 1⟩ := by
  have hcommit : transact noFaults.call (rolledBack i) (commitDump env i dump)
      (⟨db, w, n⟩ : Session Database Objects) = .ok false ⟨db', w, n + 1⟩ :=
    transact_eq_ok false db' rfl h
  unfold commitTurn
  rw [bind_of_ok hcommit, if_neg (by exact Bool.false_ne_true)]
  rfl

/-- Without faults a turn that can be done is done. -/
theorem backfillRevision_noFaults (hrows : rows.artifactsOf i = db.artifactsOf i)
    (h : turn env i (db, w) = some t) :
    ∃ result s, backfillRevision env noFaults true rows i ⟨db, w, n⟩ = .ok result s := by
  unfold backfillRevision
  rw [hrows]
  rcases turn_cases h with ⟨hdump, _⟩ | ⟨hnone, dump, hmissing, hstored, hcommit, _⟩
  · rw [← isSome_artifactOfType] at hdump
    obtain ⟨current, hcurrent⟩ := Option.isSome_iff_exists.mp hdump
    unfold turn at h
    rw [hcurrent] at h ⊢
    obtain ⟨content, hload, _⟩ := Option.map_eq_some_iff.mp h
    refine ⟨.existing, ⟨db, w, n + 1⟩, action_noFaults ?_⟩
    rw [hload]
  · rw [not_found hnone]
    obtain ⟨native, hnative, hextract⟩ := Option.bind_eq_some_iff.mp hmissing
    rw [show artifactOfType (db.artifactsOf i) "native_backup" = some native from hnative]
    have hdump : action noFaults.call (notExtracted i) (fun objects =>
        (extractDump env i native objects).map (fun dump => (dump, objects)))
        (⟨db, w, n⟩ : Session Database Objects) = .ok dump ⟨db, w, n + 1⟩ := by
      refine action_noFaults ?_
      cases hfound : extractDump env i native w with
      | error e =>
        rw [hfound] at hextract
        cases hextract
      | ok found =>
        rw [hfound] at hextract
        cases hextract
        rfl
    dsimp only
    rw [bind_of_ok hdump, if_neg (by decide)]
    obtain ⟨created, m, hstore⟩ := @storeDump_noFaults env db w t.2 i (n + 1) dump hstored
    rw [bind_of_ok hstore]
    refine ⟨.migrated, ⟨t.1, t.2, m + 1⟩, ?_⟩
    unfold cleaningUp
    rw [commitTurn_noFaults hcommit]

theorem backfillRevisions_noFaults {l : List ConfigRevision} {p : BackfillProgress}
    (hrows : ∀ r ∈ l, rows.artifactsOf r.pk = db.artifactsOf r.pk)
    (hkeys : l.Pairwise (fun a b => a.pk ≠ b.pk))
    (h : (backfillLoop env).run (l.map (fun r => r.pk)) (db, w) = some t) :
    ∃ p' s, backfillRevisions env noFaults true rows l p ⟨db, w, n⟩ = .ok p' s := by
  induction l generalizing db w n p with
  | nil => exact ⟨p, _, rfl⟩
  | cons r rest ih =>
    obtain ⟨hfresh, hkeys⟩ := List.pairwise_cons.mp hkeys
    obtain ⟨u, hturn, hrest⟩ := Option.bind_eq_some_iff.mp h
    have hturn : turn env r.pk (db, w) = some u := hturn
    obtain ⟨result, s, hrun⟩ := @backfillRevision_noFaults env rows db w u r.pk n
      (hrows r List.mem_cons_self) hturn
    have hfirst := @triple_backfillRevision env noFaults r.pk rows db w
      (hrows r List.mem_cons_self) ⟨db, w, n⟩ ⟨rfl, rfl⟩
    rw [hrun] at hfirst
    have hu : u = (s.db, s.world) := Option.some.inj (hturn.symm.trans hfirst.1)
    unfold backfillRevisions
    rw [bind_of_ok hrun]
    rw [hu] at hturn hrest
    exact ih (fun other hother => (hrows other (List.mem_cons_of_mem r hother)).trans
      (artifactsOf_of_turn hturn (Ne.symm (hfresh other hother))).symm) hkeys hrest

/-- Without faults the command returns when its loop can be done. -/
theorem completes_of_run (h : (backfillLoop env).run (queuedKeys revisionId s.1) s = some t) :
    Completes env revisionId s (flagged t.1 (affected revisionId s.1), t.2) := by
  obtain ⟨p, u, hloop⟩ := @backfillRevisions_noFaults env s.1 s.1 s.2 t 1
    (backfillQueryset s.1 revisionId) ⟨⟨0, 0, 0⟩, []⟩ (fun _ _ => rfl)
    (keys_backfillQueryset s.1 revisionId) h
  have hselect : (select noFaults.call BackfillFailure.database id :
      Program Database Objects BackfillFailure Database) ⟨s.1, s.2, 0⟩ =
      .ok s.1 ⟨s.1, s.2, 1⟩ := rfl
  have hcases := handle_cases env noFaults revisionId ⟨s.1, s.2, 0⟩
  have hok : ∃ summary v, handle env noFaults true revisionId ⟨s.1, s.2, 0⟩ = .ok summary v := by
    unfold handle
    rw [bind_of_ok hselect, bind_of_ok hloop, if_pos rfl]
    have hflags := @recomputeTargets_cases noFaults (env.order p.affectedTargetIds)
      (fun _ => false) u.db u (flagged_none u.db).symm
    cases hrecompute : recomputeTargets noFaults (env.order p.affectedTargetIds) u with
    | error e v =>
      rw [hrecompute] at hflags
      obtain ⟨_, _, hfails⟩ := hflags
      cases hfails
    | ok _ v =>
      rw [bind_of_ok hrecompute]
      exact ⟨p.summary, v, rfl⟩
  obtain ⟨summary, v, hrun⟩ := hok
  rw [hrun] at hcases
  obtain ⟨M, hkeys, hdb⟩ := hcases
  have hM : (M, v.world) = t := Option.some.inj (hkeys.symm.trans h)
  refine ⟨noFaults, 0, summary, v.calls, ?_⟩
  rw [hrun, ← hM, ← hdb]

end WithoutFaults

section Restart

variable {env : BackfillEnvironment} {revisionId : Option ℕ} {start before after : Stored}

theorem run_of_completes (h : Completes env revisionId before after) :
    ∃ M, (backfillLoop env).run (queuedKeys revisionId before.1) before = some (M, after.2) ∧
      after.1 = flagged M (affected revisionId before.1) := by
  obtain ⟨faults, calls, summary, endCalls, hrun⟩ := h
  have hcases := handle_cases env faults revisionId ⟨before.1, before.2, calls⟩
  rw [hrun] at hcases
  exact hcases

theorem interrupted_of_aborts (h : Aborts env revisionId before after) :
    (backfillLoop env).Interrupted (queuedKeys revisionId before.1) before after := by
  obtain ⟨faults, calls, e, endCalls, hfailure, hrun⟩ := h
  have hcases := handle_cases env faults revisionId ⟨before.1, before.2, calls⟩
  rw [hrun] at hcases
  exact hcases hfailure

/-- Aborted runs are interrupted runs over the same revisions. -/
theorem attempts_of_abortedRuns (h : AbortedRuns env revisionId start before) :
    (backfillLoop env).Attempts (queuedKeys revisionId start.1) start before ∧
      SameRevisions start.1 before.1 := by
  induction h with
  | start => exact ⟨.start, sameRevisions_refl start.1⟩
  | abort _ haborts ih =>
    have hinterrupted := interrupted_of_aborts haborts
    have hrows := sameRevisions_interrupted hinterrupted
    rw [queuedKeys_of_sameRevisions ih.2] at hinterrupted
    exact ⟨.again ih.1 hinterrupted, ih.2.trans hrows⟩

/-- After aborted runs the last run ends as a single one would, with consistent flags, exactly
when each target that the aborted runs finished is consistent before it. -/
theorem restart_iff (haborted : AbortedRuns env revisionId start before)
    (hlast : Completes env revisionId before after) :
    ∃ single, Completes env revisionId start single ∧
      (∀ other, Completes env revisionId start other → other = single) ∧
      ((after = single ∧ ∀ targetId, affected revisionId start.1 targetId = true →
          FlagsConsistent after.1 targetId) ↔
        ∀ targetId, affected revisionId start.1 targetId = true →
          affected revisionId before.1 targetId = false → FlagsConsistent before.1 targetId) := by
  obtain ⟨hattempts, hrows⟩ := attempts_of_abortedRuns haborted
  obtain ⟨M, hrun, hafter⟩ := run_of_completes hlast
  have hfirst := hrun
  rw [queuedKeys_of_sameRevisions hrows] at hfirst
  have hsingle := Loop.run_of_attempts (@resumable_backfillLoop env) hattempts hfirst
  have hfewer : ∀ targetId, affected revisionId before.1 targetId = true →
      affected revisionId start.1 targetId = true := fun targetId =>
    affected_of_later hrows (fun k => Loop.finished_of_attempts resumable_backfillLoop hattempts)
  refine ⟨_, completes_of_run hsingle, fun other hother => ?_, ?_⟩
  · obtain ⟨M', hrun', hother'⟩ := run_of_completes hother
    rw [hsingle, Option.some.injEq, Prod.mk.injEq] at hrun'
    exact Prod.ext (by rw [hother', hrun'.1]) hrun'.2.symm
  · have hsame : (∀ targetId, affected revisionId start.1 targetId = true →
        affected revisionId before.1 targetId = false → FlagsConsistent M targetId) ↔
        ∀ targetId, affected revisionId start.1 targetId = true →
          affected revisionId before.1 targetId = false → FlagsConsistent before.1 targetId := by
      refine forall_congr' (fun targetId => forall_congr' (fun _ =>
        forall_congr' (fun hdone => ?_)))
      have hframe := sameTarget_of_not_affected hrun hdone
      exact ⟨FlagsConsistent.of_sameTarget hframe, FlagsConsistent.of_sameTarget hframe.symm⟩
    rw [← hsame, ← flagged_eq_iff hfewer, ← hafter]
    constructor
    · rintro ⟨heq, _⟩
      exact congrArg Prod.fst heq
    · intro heq
      refine ⟨Prod.ext heq rfl, fun targetId haffected => ?_⟩
      rw [heq]
      exact consistent_flagged haffected

/-- What a run raises, and what it leaves. -/
def outcome (env : BackfillEnvironment) (faults : BackfillFaults) (revisionId : Option ℕ)
    (s : Stored) : Option BackfillFailure × Stored :=
  match handle env faults true revisionId ⟨s.1, s.2, 0⟩ with
  | .ok _ t => (none, (t.db, t.world))
  | .error e t => (some e, (t.db, t.world))

theorem completes_outcome {faults : BackfillFaults} {s : Stored}
    (h : (outcome env faults revisionId s).1 = none) :
    Completes env revisionId s (outcome env faults revisionId s).2 := by
  unfold outcome at h ⊢
  cases hrun : handle env faults true revisionId ⟨s.1, s.2, 0⟩ with
  | ok summary t => exact ⟨faults, 0, summary, t.calls, hrun⟩
  | error e t =>
    rw [hrun] at h
    cases h

theorem aborts_outcome {faults : BackfillFaults} {s : Stored} {e : BackfillFailure}
    (h : (outcome env faults revisionId s).1 = some e) (he : e ≠ .database) :
    Aborts env revisionId s (outcome env faults revisionId s).2 := by
  unfold outcome at h ⊢
  cases hrun : handle env faults true revisionId ⟨s.1, s.2, 0⟩ with
  | ok summary t =>
    rw [hrun] at h
    cases h
  | error raised t =>
    rw [hrun] at h
    cases h
    exact ⟨faults, 0, e, t.calls, he, hrun⟩

/-- The dump in every archive of the example. -/
def radioDump : Bytes := ascii "header_ver=1"

/-- A library that reads these archives; the hash is the content itself. -/
def radioEnvironment : BackfillEnvironment where
  driver := ceragonIP50Driver
    (fun archive => if archive.take 2 = ascii "PK" then some radioDump else none)
    (fun artifact => artifact.content == radioDump)
  sha256Hex content := String.ofList (content.map (fun b => Char.ofNat b.toNat))
  order := id
  order_perm := fun _ => List.Perm.refl _

def radioTarget (pk day : ℕ) : BackupTarget :=
  { exampleTarget with pk := pk, lastChangeAt := some (days day), lastRevision := some (pk + 1) }

def radioRevision (pk target : ℕ) : ConfigRevision :=
  { exampleRevision pk (days pk) none with target := target, driverId := "ceragon_ip50" }

def nativeBackup (pk : ℕ) (key content : String) : ConfigArtifact where
  pk := pk
  revision := pk
  artifactType := "native_backup"
  format := "ceragon_ip50_zip"
  storageKey := key
  size := 3
  rawHash := content
  normalizedHash := content
  isPrimary := true
  localAvailable := true
  localDeletedAt := none

def radioRun (pk target : ℕ) : BackupRun :=
  { newRun target (days pk) none pk with
    status := .successChanged, revision := some pk, changed := true }

/-- Two radios; the first one has two backups of one configuration. -/
def radios : Stored :=
  ({ exampleDatabase with
      targets := ⟨[radioTarget 1 2, radioTarget 2 3], 3, by decide, by decide⟩
      revisions := ⟨[radioRevision 1 1, radioRevision 2 1, radioRevision 3 2], 4, by decide,
        by decide⟩
      artifacts := ⟨[nativeBackup 1 "1/backup.zip" "PK1", nativeBackup 2 "2/backup.zip" "PK2",
        nativeBackup 3 "3/backup.zip" "PK3"], 4, by decide, by decide⟩
      replicas := Table.empty
      runs := ⟨[radioRun 1 1, radioRun 2 1, radioRun 3 2], 4, by decide, by decide⟩ },
    fun path =>
      if path = ["1".toList, "backup.zip".toList] then some (ascii "PK1")
      else if path = ["2".toList, "backup.zip".toList] then some (ascii "PK2")
      else if path = ["3".toList, "backup.zip".toList] then some (ascii "PK3")
      else none)

/-- The archive of the third revision cannot be read once. -/
def unreadableOnce : BackfillFaults := ⟨fun n => n == 9, fun _ => none⟩

/-- The rows and files when the first run has stopped at the second radio. -/
def stoppedRadios : Stored := (outcome radioEnvironment unreadableOnce none radios).2

theorem aborts_radios : Aborts radioEnvironment none radios stoppedRadios :=
  @aborts_outcome radioEnvironment none unreadableOnce radios (notExtracted 3)
    (by decide +kernel) (by decide)

theorem completes_stoppedRadios : Completes radioEnvironment none stoppedRadios
    (outcome radioEnvironment noFaults none stoppedRadios).2 :=
  completes_outcome (by decide +kernel)

theorem restart_iff_radios :
    ∃ single, Completes radioEnvironment none radios single ∧
      (∀ other, Completes radioEnvironment none radios other → other = single) ∧
      (((outcome radioEnvironment noFaults none stoppedRadios).2 = single ∧
          ∀ targetId, affected none radios.1 targetId = true →
            FlagsConsistent (outcome radioEnvironment noFaults none stoppedRadios).2.1 targetId) ↔
        ∀ targetId, affected none radios.1 targetId = true →
          affected none stoppedRadios.1 targetId = false →
            FlagsConsistent stoppedRadios.1 targetId) :=
  restart_iff (.abort .start aborts_radios) completes_stoppedRadios

/-- The run that follows finds all dumps of the first radio there and does not compute its
flags, so the second backup stays flagged as a change. -/
theorem finished_target_not_flagged : ¬ ∀ (env : BackfillEnvironment) (revisionId : Option ℕ)
    (start before after single : Stored), AbortedRuns env revisionId start before →
      Completes env revisionId before after → Completes env revisionId start single →
        after = single := by
  intro h
  have hsame := h radioEnvironment none radios stoppedRadios _ _ (.abort .start aborts_radios)
    completes_stoppedRadios (@completes_outcome _ _ noFaults _ (by decide +kernel))
  have hflags := congrArg (fun s : Stored => s.1.revisions.rows.map (fun r => r.contentChanged))
    hsame
  have hrestarted : (outcome radioEnvironment noFaults none stoppedRadios).2.1.revisions.rows.map
      (fun r => r.contentChanged) = [true, true, true] := by decide +kernel
  have hsingle : (outcome radioEnvironment noFaults none radios).2.1.revisions.rows.map
      (fun r => r.contentChanged) = [true, false, true] := by decide +kernel
  rw [show _ = [true, true, true] from hrestarted] at hflags
  exact absurd (hflags.trans hsingle) (by decide)

end Restart

end ConfigBackup.BackfillRestart
