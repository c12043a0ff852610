import ConfigBackup.GuardedRuns
import ConfigBackup.Calendar
import ConfigBackup.RowLocks
import Mathlib.Data.List.Basic

/-!
The trust of SSH host keys. Scans record the keys that a device offers for its
endpoint; the first of them may be trusted automatically, and users approve and
reject keys. Each of the four operations is one transaction that locks the rows
it changes, and its statements interleave with those of other transactions.
-/

namespace ConfigBackup.HostKeys

open Calendar GuardedRuns RowLocks Tables

inductive SSHHostKeyStatus
  | pending | trusted | rejected
deriving DecidableEq, Repr

structure Endpoint where
  target : ℕ
  address : String
  port : ℕ
deriving DecidableEq, Repr

structure SSHHostKey where
  pk : ℕ
  endpoint : Endpoint
  keyType : String
  publicKey : String
  fingerprintSha256 : String
  fingerprintMd5 : String
  status : SSHHostKeyStatus
  firstSeenAt : Instant
  lastSeenAt : Instant
  approvedAt : Option Instant
  approvedBy : Option ℕ
  rejectedAt : Option Instant
deriving DecidableEq, Repr

/-- The key that a device presented to a scan. -/
structure OfferedKey where
  endpoint : Endpoint
  keyType : String
  publicKey : String
  fingerprintSha256 : String
  fingerprintMd5 : String
deriving DecidableEq, Repr

/-- The change log of the keys. A key is recorded alone when its endpoint had no
row before; no user stands behind an automatic approval. -/
inductive KeyEvent
  | recorded (pk : ℕ) (alone : Bool)
  | trusted (pk : ℕ) (approvedBy : Option ℕ)
  | rejected (pk : ℕ) (user : ℕ)
deriving DecidableEq, Repr

structure Store where
  keys : Table SSHHostKey SSHHostKey.pk
  events : List KeyEvent

inductive Operation
  | scanTargetHostKey (offered : OfferedKey)
  | trustFirstSeenHostKey (candidateId : ℕ)
  | trustHostKey (candidateId : ℕ) (user : ℕ)
  | rejectHostKey (candidateId : ℕ) (user : ℕ)
deriving DecidableEq, Repr

def Operation.candidateId? : Operation → Option ℕ
  | .scanTargetHostKey _ => none
  | .trustFirstSeenHostKey candidateId => some candidateId
  | .trustHostKey candidateId _ => some candidateId
  | .rejectHostKey candidateId _ => some candidateId

/-- How far a transaction has come. An approval carries the trusted rows of its
query: those it has still to lock, and those it has locked and will reject. -/
inductive Phase
  | opened (operation : Operation)
  | scanned (offered : OfferedKey) (row : Option ℕ)
  | locked (operation : Operation) (candidate : SSHHostKey)
  | approving (candidate : SSHHostKey) (approvedBy : Option ℕ) (left previous : List ℕ)
deriving DecidableEq

abbrev State := RowLocks.State Store ℕ Phase

section Writes

/-- The identity that `update_or_create` looks up. -/
def OfferedKey.identifies (offered : OfferedKey) (key : SSHHostKey) : Bool :=
  key.endpoint == offered.endpoint && key.keyType == offered.keyType &&
    key.fingerprintSha256 == offered.fingerprintSha256

def newKey (offered : OfferedKey) (now : Instant) (pk : ℕ) : SSHHostKey where
  pk := pk
  endpoint := offered.endpoint
  keyType := offered.keyType
  publicKey := offered.publicKey
  fingerprintSha256 := offered.fingerprintSha256
  fingerprintMd5 := offered.fingerprintMd5
  status := .pending
  firstSeenAt := now
  lastSeenAt := now
  approvedAt := none
  approvedBy := none
  rejectedAt := none

def seenKey (offered : OfferedKey) (now : Instant) (key : SSHHostKey) : SSHHostKey :=
  { key with
    publicKey := offered.publicKey
    fingerprintMd5 := offered.fingerprintMd5
    lastSeenAt := now }

def replacedKey (now : Instant) (key : SSHHostKey) : SSHHostKey :=
  { key with status := .rejected, rejectedAt := some now }

def approvedKey (approvedBy : Option ℕ) (now : Instant) (key : SSHHostKey) : SSHHostKey :=
  { key with
    status := .trusted
    approvedAt := some now
    approvedBy := approvedBy
    rejectedAt := none }

def rejectedKey (now : Instant) (key : SSHHostKey) : SSHHostKey :=
  { key with
    status := .rejected
    rejectedAt := some now
    approvedAt := none
    approvedBy := none }

@[simp] theorem newKey_pk (offered : OfferedKey) (now : Instant) (pk : ℕ) :
    (newKey offered now pk).pk = pk := rfl

@[simp] theorem seenKey_pk (offered : OfferedKey) (now : Instant) (key : SSHHostKey) :
    (seenKey offered now key).pk = key.pk := rfl

@[simp] theorem replacedKey_pk (now : Instant) (key : SSHHostKey) :
    (replacedKey now key).pk = key.pk := rfl

@[simp] theorem approvedKey_pk (approvedBy : Option ℕ) (now : Instant) (key : SSHHostKey) :
    (approvedKey approvedBy now key).pk = key.pk := rfl

@[simp] theorem rejectedKey_pk (now : Instant) (key : SSHHostKey) :
    (rejectedKey now key).pk = key.pk := rfl

/-- Another row of the candidate's endpoint. -/
def isOther (candidate key : SSHHostKey) : Bool :=
  key.endpoint == candidate.endpoint && key.pk != candidate.pk

def recordKey (offered : OfferedKey) (now : Instant) (store : Store) : Store where
  keys := store.keys.insert (newKey offered now) (newKey_pk offered now)
  events := store.events ++ [.recorded store.keys.next
    (!store.keys.rows.any (fun key => key.endpoint == offered.endpoint))]

def seeKey (offered : OfferedKey) (now : Instant) (pk : ℕ) (store : Store) : Store :=
  { store with keys := store.keys.update pk (seenKey offered now) (seenKey_pk offered now) }

def rejectKey (candidateId user : ℕ) (now : Instant) (store : Store) : Store where
  keys := store.keys.update candidateId (rejectedKey now) (rejectedKey_pk now)
  events := store.events ++ [.rejected candidateId user]

def replaceKeys (previous : List ℕ) (now : Instant) (keys : Table SSHHostKey SSHHostKey.pk) :
    Table SSHHostKey SSHHostKey.pk :=
  previous.foldl (fun keys pk => keys.update pk (replacedKey now) (replacedKey_pk now)) keys

def approveKey (candidateId : ℕ) (approvedBy : Option ℕ) (previous : List ℕ) (now : Instant)
    (store : Store) : Store where
  keys := (replaceKeys previous now store.keys).update candidateId (approvedKey approvedBy now)
    (approvedKey_pk approvedBy now)
  events := store.events ++ [.trusted candidateId approvedBy]

end Writes

section Steps

inductive Label
  | begin (operation : Operation)
  | read (txn : ℕ)
  | query (txn : ℕ)
  | lockPrevious (txn : ℕ) (pk : ℕ)
  | commit (txn : ℕ) (now : Instant)
  | abort (txn : ℕ)
deriving DecidableEq, Repr

/-- `SELECT … FOR UPDATE` of one row: it waits while another transaction holds it. -/
def lockRow (s : State) (txn : ℕ) (key : SSHHostKey) (phase : Phase) : Option State :=
  if lockedByOther s txn key.pk then none else some (advance s txn [key.pk] phase)

/-- The read of `update_or_create`, which finds the row of the offered identity. -/
def readIdentity (s : State) (txn : ℕ) (offered : OfferedKey) : Option State :=
  match s.store.keys.rows.find? offered.identifies with
  | none => some (advance s txn [] (.scanned offered none))
  | some key => lockRow s txn key (.scanned offered (some key.pk))

def lockCandidate (s : State) (txn : ℕ) (operation : Operation) : Option State :=
  (operation.candidateId?.bind s.store.keys.get?).bind fun key =>
    lockRow s txn key (.locked operation key)

/-- The first read of a transaction. A scan reads again when its insert met the
unique constraint. -/
def read (s : State) (txn : ℕ) : Phase → Option State
  | .opened (.scanTargetHostKey offered) => readIdentity s txn offered
  | .opened operation => lockCandidate s txn operation
  | .scanned offered none => readIdentity s txn offered
  | _ => none

/-- The query for other rows of the endpoint. The automatic approval returns when
the key is not pending any more or the endpoint has another row. -/
def query (s : State) (txn : ℕ) : Phase → Option State
  | .locked (.trustFirstSeenHostKey _) candidate =>
    if candidate.status ≠ .pending ∨ s.store.keys.rows.any (isOther candidate) then
      some (endTxn s txn s.store)
    else some (advance s txn [] (.approving candidate none [] []))
  | .locked (.trustHostKey _ user) candidate =>
    let previous := s.store.keys.rows.filter (fun key =>
      isOther candidate key && key.status == .trusted)
    some (advance s txn [] (.approving candidate (some user) (previous.map SSHHostKey.pk) []))
  | _ => none

/-- The query's lock on a further row; the row is skipped when it is not trusted
any more. -/
def lockPrevious (s : State) (txn pk : ℕ) : Phase → Option State
  | .approving candidate approvedBy left previous =>
    if pk ∈ left then do
      let key ← s.store.keys.get? pk
      lockRow s txn key (.approving candidate approvedBy (left.erase pk)
        (if key.status = .trusted then previous ++ [pk] else previous))
    else none
  | _ => none

/-- The writes of a transaction that is ready to commit. -/
def writes (store : Store) (now : Instant) : Phase → Option Store
  | .scanned offered none =>
    if store.keys.rows.any offered.identifies then none else some (recordKey offered now store)
  | .scanned offered (some pk) => some (seeKey offered now pk store)
  | .locked (.rejectHostKey _ user) candidate => some (rejectKey candidate.pk user now store)
  | .approving candidate approvedBy [] previous =>
    some (approveKey candidate.pk approvedBy previous now store)
  | _ => none

def step (s : State) : Label → Option State
  | .begin operation => some (openTxn s (.opened operation))
  | .read txn => (s.txns.get? txn).bind fun t => read s txn t.phase
  | .query txn => (s.txns.get? txn).bind fun t => query s txn t.phase
  | .lockPrevious txn pk => (s.txns.get? txn).bind fun t => lockPrevious s txn pk t.phase
  | .commit txn now => (s.txns.get? txn).bind fun t =>
    (writes s.store now t.phase).map (endTxn s txn)
  | .abort txn => (s.txns.get? txn).map fun _ => endTxn s txn s.store

def initial : State := ⟨⟨Table.empty, []⟩, Table.empty⟩

end Steps

section Commits

variable {store store' : Store} {keys keys' : Table SSHHostKey SSHHostKey.pk} {now : Instant}

/-- What a transaction that holds the rows `held` may do to the keys: it leaves all
other rows, makes a key trusted at the endpoint `approved` only, and inserts a row
at the endpoint `recorded` only. -/
structure Committed (held : List ℕ) (approved recorded : Option Endpoint)
    (keys keys' : Table SSHHostKey SSHHostKey.pk) : Prop where
  kept : ∀ key ∈ keys, key.pk ∉ held → keys'.get? key.pk = some key
  persists : ∀ key ∈ keys, ∃ key' ∈ keys', key'.pk = key.pk ∧ key'.endpoint = key.endpoint ∧
    (key'.status = .pending → key.status = .pending)
  rows : ∀ key' ∈ keys',
    (key'.pk = keys.next ∧ key'.status = .pending ∧ recorded = some key'.endpoint) ∨
    ∃ key ∈ keys, key.pk = key'.pk ∧ key.endpoint = key'.endpoint ∧
      (key'.status = .trusted → key.status = .trusted ∨ approved = some key'.endpoint)

/-- Rewriting the rows of `previous` one after the other rewrites each of them once. -/
theorem get?_replaceKeys (previous : List ℕ) (keys : Table SSHHostKey SSHHostKey.pk) (pk : ℕ) :
    (replaceKeys previous now keys).get? pk =
      (keys.get? pk).map (fun key => if key.pk ∈ previous then replacedKey now key else key) := by
  induction previous generalizing keys with
  | nil => cases h : keys.get? pk <;> simp [replaceKeys, h]
  | cons first rest ih =>
    show (replaceKeys rest now (keys.update first (replacedKey now) (replacedKey_pk now))).get? pk
      = _
    rw [ih, Table.update, Table.get?_map, Option.map_map]
    congr 1
    funext key
    by_cases hfirst : key.pk = first <;> by_cases hrest : key.pk ∈ rest <;>
      simp [hfirst, hrest, replacedKey]

/-- What an approval does to each row. -/
def approvalOf (candidateId : ℕ) (approvedBy : Option ℕ) (previous : List ℕ) (now : Instant)
    (key : SSHHostKey) : SSHHostKey :=
  if key.pk = candidateId then
    approvedKey approvedBy now (if key.pk ∈ previous then replacedKey now key else key)
  else if key.pk ∈ previous then replacedKey now key
  else key

theorem get?_approveKey {candidateId pk : ℕ} {approvedBy : Option ℕ} {previous : List ℕ} :
    (approveKey candidateId approvedBy previous now store).keys.get? pk =
      (store.keys.get? pk).map (approvalOf candidateId approvedBy previous now) := by
  show ((replaceKeys previous now store.keys).update candidateId (approvedKey approvedBy now)
    (approvedKey_pk approvedBy now)).get? pk = _
  rw [Table.update, Table.get?_map, get?_replaceKeys, Option.map_map]
  congr 1
  funext key
  unfold approvalOf
  by_cases hprevious : key.pk ∈ previous <;> simp [hprevious]

/-- A commit that rewrites rows in place, given by what it does to each of them. -/
theorem committed_of_get? {held : List ℕ} {approved recorded : Option Endpoint}
    {f : SSHHostKey → SSHHostKey} (hget : ∀ pk, keys'.get? pk = (keys.get? pk).map f)
    (hpk : ∀ key, (f key).pk = key.pk) (hendpoint : ∀ key, (f key).endpoint = key.endpoint)
    (hkept : ∀ key, key.pk ∉ held → f key = key)
    (hpending : ∀ key, (f key).status = .pending → key.status = .pending)
    (htrusted : ∀ key ∈ keys, (f key).status = .trusted →
      key.status = .trusted ∨ approved = some key.endpoint) :
    Committed held approved recorded keys keys' where
  kept := by
    intro key hkey hheld
    rw [hget, keys.get?_of_mem hkey, Option.map_some, hkept key hheld]
  persists := by
    intro key hkey
    have hfound : keys'.get? key.pk = some (f key) := by
      rw [hget, keys.get?_of_mem hkey, Option.map_some]
    exact ⟨f key, ((keys'.get?_eq_some_iff _ _).mp hfound).1, hpk key, hendpoint key,
      hpending key⟩
  rows := by
    intro key' hkey'
    have hfound := keys'.get?_of_mem hkey'
    rw [hget] at hfound
    obtain ⟨key, hkey, hrewritten⟩ := Option.map_eq_some_iff.mp hfound
    obtain ⟨hmem, hsame⟩ := (keys.get?_eq_some_iff _ _).mp hkey
    refine Or.inr ⟨key, hmem, hsame, ?_, ?_⟩
    · rw [← hrewritten, hendpoint]
    · rw [← hrewritten, hendpoint]
      exact htrusted key hmem

theorem committed_recordKey {offered : OfferedKey} {held : List ℕ} :
    Committed held none (some offered.endpoint) store.keys
      (recordKey offered now store).keys where
  kept := by
    intro key hkey _
    show (store.keys.insert (newKey offered now) (newKey_pk offered now)).get? key.pk = some key
    rw [Table.get?_insert, if_neg (Nat.ne_of_lt (store.keys.below key hkey))]
    exact store.keys.get?_of_mem hkey
  persists key hkey :=
    ⟨key, (Table.mem_insert _ _ (newKey_pk offered now) _).mpr (Or.inl hkey), rfl, rfl, id⟩
  rows := by
    intro key' hkey'
    rcases (Table.mem_insert _ _ (newKey_pk offered now) _).mp hkey' with hold | rfl
    · exact Or.inr ⟨key', hold, rfl, rfl, Or.inl⟩
    · exact Or.inl ⟨rfl, rfl, rfl⟩

theorem committed_update {f : SSHHostKey → SSHHostKey} (hf : ∀ key, (f key).pk = key.pk) {pk : ℕ}
    {held : List ℕ} (hheld : pk ∈ held) (hendpoint : ∀ key, (f key).endpoint = key.endpoint)
    (hpending : ∀ key, (f key).status = .pending → key.status = .pending)
    (htrusted : ∀ key, (f key).status = .trusted → key.status = .trusted) :
    Committed held none none keys (keys.update pk f hf) := by
  refine committed_of_get? (f := fun key => if key.pk = pk then f key else key)
    (fun j => Table.get?_map keys _ _ j) ?_ ?_ ?_ ?_ ?_
  · intro key
    show (if key.pk = pk then f key else key).pk = key.pk
    split
    · exact hf key
    · rfl
  · intro key
    show (if key.pk = pk then f key else key).endpoint = key.endpoint
    split
    · exact hendpoint key
    · rfl
  · intro key hfree
    apply if_neg
    intro heq
    exact hfree (heq ▸ hheld)
  · intro key
    show (if key.pk = pk then f key else key).status = .pending → _
    split
    · exact hpending key
    · exact id
  · intro key _ h
    change (if key.pk = pk then f key else key).status = .trusted at h
    split at h
    · exact Or.inl (htrusted key h)
    · exact Or.inl h

theorem committed_approveKey {candidate : SSHHostKey} {approvedBy : Option ℕ}
    {previous held : List ℕ} (hcandidate : candidate ∈ store.keys) (hheld : candidate.pk ∈ held)
    (hprevious : ∀ pk ∈ previous, pk ∈ held) :
    Committed held (some candidate.endpoint) none store.keys
      (approveKey candidate.pk approvedBy previous now store).keys := by
  refine committed_of_get? (f := approvalOf candidate.pk approvedBy previous now)
    (fun _ => get?_approveKey) ?_ ?_ ?_ ?_ ?_
  · intro key
    unfold approvalOf
    split <;> split <;> rfl
  · intro key
    unfold approvalOf
    split <;> split <;> rfl
  · intro key hfree
    unfold approvalOf
    have hne : key.pk ≠ candidate.pk := fun heq => hfree (heq ▸ hheld)
    rw [if_neg hne, if_neg (fun hmem => hfree (hprevious _ hmem))]
  · intro key hpending
    unfold approvalOf at hpending
    split at hpending
    · cases hpending
    · split at hpending
      · cases hpending
      · exact hpending
  · intro key hkey htrusted
    by_cases hsame : key.pk = candidate.pk
    · exact Or.inr (by rw [store.keys.eq_of_key_eq hkey hcandidate hsame])
    · unfold approvalOf at htrusted
      rw [if_neg hsame] at htrusted
      split at htrusted
      · cases htrusted
      · exact Or.inl htrusted

end Commits

section Transactions

/-- The key that a transaction has decided to trust. -/
def Phase.approved? : Phase → Option SSHHostKey
  | .approving candidate _ _ _ => some candidate
  | _ => none

def Phase.approves (phase : Phase) : Option Endpoint := phase.approved?.map SSHHostKey.endpoint

/-- The endpoint at which a scan inserts a row. -/
def Phase.records : Phase → Option Endpoint
  | .scanned offered none => some offered.endpoint
  | _ => none

/-- No row of the endpoint was recorded before the key. -/
def First (keys : Table SSHHostKey SSHHostKey.pk) (candidate : SSHHostKey) : Prop :=
  ∀ key ∈ keys, key.endpoint = candidate.endpoint → candidate.pk ≤ key.pk

/-- What an open transaction may rely on: it holds the rows that it will write, its
candidate is as it was read, and an approval has seen all other trusted rows. -/
def Holds (store : Store) (t : Txn ℕ Phase) : Prop :=
  match t.phase with
  | .opened _ => True
  | .scanned _ row => ∀ pk ∈ row, pk ∈ t.held
  | .locked _ candidate => candidate.pk ∈ t.held ∧ candidate ∈ store.keys
  | .approving candidate approvedBy left previous =>
    candidate.pk ∈ t.held ∧ candidate ∈ store.keys ∧ (∀ pk ∈ previous, pk ∈ t.held) ∧
      (∀ key ∈ store.keys, key.endpoint = candidate.endpoint → key.status = .trusted →
        key.pk ≠ candidate.pk → key.pk ∈ left ∨ key.pk ∈ previous) ∧
      (approvedBy = none → candidate.status = .pending ∧ First store.keys candidate)

variable {store store' : Store} {held : List ℕ} {approved recorded : Option Endpoint}

theorem Committed.mem (h : Committed held approved recorded store.keys store'.keys)
    {key : SSHHostKey} (hkey : key ∈ store.keys) (hfree : key.pk ∉ held) : key ∈ store'.keys :=
  ((store'.keys.get?_eq_some_iff _ _).mp (h.kept key hkey hfree)).1

theorem Committed.first (h : Committed held approved recorded store.keys store'.keys)
    {candidate : SSHHostKey} (hcandidate : candidate ∈ store.keys)
    (hfirst : First store.keys candidate) : First store'.keys candidate := by
  intro key' hkey' hendpoint
  rcases h.rows key' hkey' with ⟨hnew, _⟩ | ⟨key, hkey, hpk, hsame, _⟩
  · rw [hnew]
    exact le_of_lt (store.keys.below candidate hcandidate)
  · rw [← hpk]
    exact hfirst key hkey (hsame.trans hendpoint)

/-- A commit of one transaction leaves what another relies on, as the two hold
different rows and approve at different endpoints. -/
theorem holds_committed {t : Txn ℕ Phase} (hholds : Holds store t)
    (hcommitted : Committed held approved recorded store.keys store'.keys)
    (hdisjoint : ∀ pk ∈ t.held, pk ∉ held)
    (hapart : ∀ e, t.phase.approves = some e → approved ≠ some e) : Holds store' t := by
  obtain ⟨pk, tHeld, phase⟩ := t
  cases phase with
  | opened operation => trivial
  | scanned offered row => exact hholds
  | locked operation candidate =>
    exact ⟨hholds.1, hcommitted.mem hholds.2 (hdisjoint _ hholds.1)⟩
  | approving candidate approvedBy left previous =>
    obtain ⟨hheld, hcandidate, hprevious, htrusted, hfirst⟩ := hholds
    refine ⟨hheld, hcommitted.mem hcandidate (hdisjoint _ hheld), hprevious, ?_, ?_⟩
    · intro key' hkey' hendpoint hstatus hne
      rcases hcommitted.rows key' hkey' with
        ⟨_, hpending, _⟩ | ⟨key, hkey, hpk, hsame, hwas⟩
      · rw [hstatus] at hpending
        cases hpending
      · have hold : key.status = .trusted := by
          rcases hwas hstatus with hold | happroved
          · exact hold
          · exact absurd happroved (hapart _ (congrArg some hendpoint.symm))
        rw [← hpk] at hne ⊢
        exact htrusted key hkey (hsame.trans hendpoint) hold hne
    · intro hnone
      exact ⟨(hfirst hnone).1, hcommitted.first hcandidate (hfirst hnone).2⟩

theorem committed_writes {t : Txn ℕ Phase} {now : Instant} (hholds : Holds store t)
    (hwrites : writes store now t.phase = some store') :
    Committed t.held t.phase.approves t.phase.records store.keys store'.keys := by
  obtain ⟨pk, held, phase⟩ := t
  cases phase with
  | opened operation => simp [writes] at hwrites
  | scanned offered row =>
    cases row with
    | none =>
      simp only [writes] at hwrites
      split at hwrites
      · cases hwrites
      · rw [← Option.some.inj hwrites]
        exact committed_recordKey
    | some row =>
      rw [← Option.some.inj hwrites]
      exact committed_update (seenKey_pk offered now) (hholds row rfl) (fun _ => rfl)
        (fun _ => id) (fun _ => id)
  | locked operation candidate =>
    cases operation with
    | rejectHostKey candidateId user =>
      rw [← Option.some.inj hwrites]
      exact committed_update (rejectedKey_pk now) hholds.1 (fun _ => rfl) (fun _ h => by cases h)
        (fun _ h => by cases h)
    | _ => simp [writes] at hwrites
  | approving candidate approvedBy left previous =>
    cases left with
    | nil =>
      rw [← Option.some.inj hwrites]
      exact committed_approveKey hholds.2.1 hholds.1 hholds.2.2.1
    | cons first rest => simp [writes] at hwrites

end Transactions

section Trust

variable {store store' : Store} {now : Instant}

/-- No endpoint has two accepted identities. -/
def TrustedOnce (keys : Table SSHHostKey SSHHostKey.pk) : Prop :=
  ∀ key ∈ keys, ∀ other ∈ keys, key.endpoint = other.endpoint → key.status = .trusted →
    other.status = .trusted → key = other

/-- A row that a commit leaves trusted was trusted before at an endpoint where
nothing is approved, or it is the approved key. -/
theorem trusted_writes {t : Txn ℕ Phase} (hholds : Holds store t)
    (hwrites : writes store now t.phase = some store') {key' : SSHHostKey}
    (hkey' : key' ∈ store'.keys) (htrusted : key'.status = .trusted) :
    (∃ key ∈ store.keys, key.pk = key'.pk ∧ key.endpoint = key'.endpoint ∧
      key.status = .trusted ∧ t.phase.approves ≠ some key'.endpoint) ∨
    ∃ candidate, t.phase.approved? = some candidate ∧ candidate.pk = key'.pk ∧
      candidate.endpoint = key'.endpoint := by
  rcases (committed_writes hholds hwrites).rows key' hkey' with
    ⟨_, hpending, _⟩ | ⟨key, hkey, hpk, hendpoint, hwas⟩
  · rw [htrusted] at hpending
    cases hpending
  by_cases happroves : t.phase.approves = some key'.endpoint
  · right
    obtain ⟨candidate, hcandidate, hsame⟩ := Option.map_eq_some_iff.mp happroves
    refine ⟨candidate, hcandidate, ?_, hsame⟩
    obtain ⟨pk, held, phase⟩ := t
    cases phase with
    | approving read approvedBy left previous =>
      cases left with
      | cons first rest => simp [writes] at hwrites
      | nil =>
        obtain rfl : read = candidate := Option.some.inj hcandidate
        by_contra hne
        have hfound := store'.keys.get?_of_mem hkey'
        rw [← Option.some.inj hwrites, get?_approveKey, ← hpk, store.keys.get?_of_mem hkey]
          at hfound
        have hrewritten : approvalOf read.pk approvedBy previous now key = key' :=
          Option.some.inj hfound
        unfold approvalOf at hrewritten
        rw [if_neg (fun heq => hne (heq.symm.trans hpk))] at hrewritten
        split at hrewritten
        · rw [← hrewritten] at htrusted
          cases htrusted
        · rename_i hfree
          subst key'
          rcases hholds.2.2.2.1 key hkey hsame.symm htrusted (Ne.symm hne) with hmem | hmem
          · cases hmem
          · exact hfree hmem
    | _ => cases hcandidate
  · left
    refine ⟨key, hkey, hpk, hendpoint, ?_, happroves⟩
    rcases hwas htrusted with hold | happroved
    · exact hold
    · exact absurd happroved happroves

/-- The commit of an approval leaves its candidate as the only trusted row. -/
theorem trustedOnce_writes {t : Txn ℕ Phase} (hholds : Holds store t)
    (hwrites : writes store now t.phase = some store') (h : TrustedOnce store.keys) :
    TrustedOnce store'.keys := by
  intro key' hkey' other' hother' hendpoint hkeyTrusted hotherTrusted
  apply store'.keys.eq_of_key_eq hkey' hother'
  rcases trusted_writes hholds hwrites hkey' hkeyTrusted with
    ⟨key, hkey, hkeyPk, hkeySame, hkeyWas, hkeyApart⟩ | ⟨candidate, hcandidate, hpk, hsame⟩
  · rcases trusted_writes hholds hwrites hother' hotherTrusted with
      ⟨other, hother, hotherPk, hotherSame, hotherWas, _⟩ | ⟨candidate, hcandidate, _, hsame⟩
    · have hsame : key.endpoint = other.endpoint := by rw [hkeySame, hotherSame, hendpoint]
      have heq := h key hkey other hother hsame hkeyWas hotherWas
      rw [← hkeyPk, ← hotherPk, heq]
    · exact absurd (Option.map_eq_some_iff.mpr ⟨candidate, hcandidate, hsame.trans hendpoint.symm⟩)
        hkeyApart
  · rcases trusted_writes hholds hwrites hother' hotherTrusted with
      ⟨_, _, _, _, _, hotherApart⟩ | ⟨candidate', hcandidate', hpk', _⟩
    · exact absurd (Option.map_eq_some_iff.mpr ⟨candidate, hcandidate, hsame.trans hendpoint⟩)
        hotherApart
    · rw [hcandidate, Option.some.injEq] at hcandidate'
      rw [← hpk, ← hpk', hcandidate']

end Trust

section History

variable {store store' : Store} {now : Instant} {t : Txn ℕ Phase}

/-- What the change log says of the rows: automatic approvals are for keys recorded
alone and precede every rejection by a user, and a trusted row has been approved
after its last rejection. -/
structure History (store : Store) : Prop where
  alone : ∀ key ∈ store.keys, .recorded key.pk true ∈ store.events ∨
    ∃ other ∈ store.keys, other.pk < key.pk ∧ other.endpoint = key.endpoint
  automatic : ∀ pk, .trusted pk none ∈ store.events → .recorded pk true ∈ store.events
  decided : ∀ pk user, .rejected pk user ∈ store.events →
    ∃ key ∈ store.keys, key.pk = pk ∧ key.status ≠ .pending
  order : store.events.Pairwise (fun a b => ∀ pk user, a = .rejected pk user → b ≠ .trusted pk none)
  approved : ∀ key ∈ store.keys, key.status = .trusted → ∃ before after approvedBy,
    store.events = before ++ .trusted key.pk approvedBy :: after ∧
      ∀ user, .rejected key.pk user ∉ after

theorem history_initial : History initial.store where
  alone key hkey := absurd hkey (Table.mem_empty key)
  automatic _ h := absurd h (List.not_mem_nil)
  decided _ _ h := absurd h (List.not_mem_nil)
  order := List.Pairwise.nil
  approved key hkey := absurd hkey (Table.mem_empty key)

/-- A commit adds one event or none to the change log. -/
inductive Logged (store : Store) (t : Txn ℕ Phase) : List KeyEvent → Prop
  | recorded (offered : OfferedKey) (h : t.phase = .scanned offered none) :
    Logged store t [.recorded store.keys.next
      (!store.keys.rows.any (fun key => key.endpoint == offered.endpoint))]
  | seen (offered : OfferedKey) (pk : ℕ) (h : t.phase = .scanned offered (some pk)) :
    Logged store t []
  | rejected (candidateId user : ℕ) (candidate : SSHHostKey)
    (h : t.phase = .locked (.rejectHostKey candidateId user) candidate) :
    Logged store t [.rejected candidate.pk user]
  | approved (candidate : SSHHostKey) (approvedBy : Option ℕ) (previous : List ℕ)
    (h : t.phase = .approving candidate approvedBy [] previous) :
    Logged store t [.trusted candidate.pk approvedBy]

theorem logged_writes (hwrites : writes store now t.phase = some store') :
    ∃ new, Logged store t new ∧ store'.events = store.events ++ new := by
  obtain ⟨pk, held, phase⟩ := t
  cases phase with
  | opened operation => simp [writes] at hwrites
  | scanned offered row =>
    cases row with
    | none =>
      simp only [writes] at hwrites
      split at hwrites
      · cases hwrites
      · rw [← Option.some.inj hwrites]
        exact ⟨_, .recorded offered rfl, rfl⟩
    | some row =>
      rw [← Option.some.inj hwrites]
      exact ⟨_, .seen offered row rfl, (List.append_nil _).symm⟩
  | locked operation candidate =>
    cases operation with
    | rejectHostKey candidateId user =>
      rw [← Option.some.inj hwrites]
      exact ⟨_, .rejected candidateId user candidate rfl, rfl⟩
    | _ => simp [writes] at hwrites
  | approving candidate approvedBy left previous =>
    cases left with
    | nil =>
      rw [← Option.some.inj hwrites]
      exact ⟨_, .approved candidate approvedBy previous rfl, rfl⟩
    | cons first rest => simp [writes] at hwrites

/-- A key that is approved without a user was the first one of its endpoint. -/
theorem automatic_approval (h : History store) (hholds : Holds store t)
    {candidate : SSHHostKey} {left previous : List ℕ}
    (hphase : t.phase = .approving candidate none left previous) :
    .recorded candidate.pk true ∈ store.events ∧ candidate ∈ store.keys ∧
      candidate.status = .pending := by
  unfold Holds at hholds
  rw [hphase] at hholds
  obtain ⟨_, hcandidate, _, _, hautomatic⟩ := hholds
  obtain ⟨hpending, hfirst⟩ := hautomatic rfl
  refine ⟨?_, hcandidate, hpending⟩
  rcases h.alone candidate hcandidate with halone | ⟨other, hother, hlt, hsame⟩
  · exact halone
  · exact absurd (hfirst other hother hsame) (not_le.mpr hlt)

theorem get?_rejectKey {candidate : SSHHostKey} {user : ℕ} (hcandidate : candidate ∈ store.keys) :
    (rejectKey candidate.pk user now store).keys.get? candidate.pk =
      some (rejectedKey now candidate) := by
  show (store.keys.update candidate.pk (rejectedKey now) (rejectedKey_pk now)).get? candidate.pk = _
  rw [Table.get?_update, if_pos rfl, store.keys.get?_of_mem hcandidate]
  rfl

/-- The row of a rejected candidate is rejected after the commit. -/
theorem rejected_writes (hholds : Holds store t)
    (hwrites : writes store now t.phase = some store') {candidateId user : ℕ}
    {candidate : SSHHostKey}
    (hphase : t.phase = .locked (.rejectHostKey candidateId user) candidate) :
    ∃ key' ∈ store'.keys, key'.pk = candidate.pk ∧ key'.status = .rejected := by
  unfold Holds at hholds
  rw [hphase] at hholds hwrites
  rw [← Option.some.inj hwrites]
  obtain ⟨hmem, _⟩ := (Table.get?_eq_some_iff _ _ _).mp (get?_rejectKey hholds.2)
  exact ⟨_, hmem, rfl, rfl⟩

theorem Committed.earlier {held : List ℕ} {approved recorded : Option Endpoint}
    (h : Committed held approved recorded store.keys store'.keys) {pk : ℕ} {endpoint : Endpoint}
    (hother : ∃ other ∈ store.keys, other.pk < pk ∧ other.endpoint = endpoint) :
    ∃ other ∈ store'.keys, other.pk < pk ∧ other.endpoint = endpoint := by
  obtain ⟨other, hother, hlt, hsame⟩ := hother
  obtain ⟨other', hother', hpk, hendpoint, _⟩ := h.persists other hother
  exact ⟨other', hother', by rw [hpk]; exact hlt, hendpoint.trans hsame⟩

theorem alone_writes (h : History store) (hholds : Holds store t)
    (hwrites : writes store now t.phase = some store') {new : List KeyEvent}
    (hlogged : Logged store t new) {key' : SSHHostKey} (hkey' : key' ∈ store'.keys) :
    .recorded key'.pk true ∈ store.events ++ new ∨
      ∃ other ∈ store'.keys, other.pk < key'.pk ∧ other.endpoint = key'.endpoint := by
  have hcommitted := committed_writes hholds hwrites
  rcases hcommitted.rows key' hkey' with ⟨hpk, _, hrecords⟩ | ⟨key, hkey, hpk, hendpoint, _⟩
  · rw [hpk]
    cases hlogged with
    | recorded offered hphase =>
      rw [hphase] at hrecords
      have hoffered : offered.endpoint = key'.endpoint := Option.some.inj hrecords
      cases hany : store.keys.rows.any (fun key => key.endpoint == offered.endpoint) with
      | false => exact Or.inl (List.mem_append_right _ (by simp))
      | true =>
        right
        obtain ⟨other, hother, hsame⟩ := List.any_eq_true.mp hany
        exact hcommitted.earlier ⟨other, hother, store.keys.below other hother,
          (beq_iff_eq.mp hsame).trans hoffered⟩
    | _ =>
      rename_i hphase
      rw [hphase] at hrecords
      cases hrecords
  · rw [← hpk, ← hendpoint]
    rcases h.alone key hkey with halone | hearlier
    · exact Or.inl (List.mem_append_left _ halone)
    · exact Or.inr (hcommitted.earlier hearlier)

theorem approved_writes (h : History store) (hholds : Holds store t)
    (hwrites : writes store now t.phase = some store') {new : List KeyEvent}
    (hlogged : Logged store t new) {key' : SSHHostKey} (hkey' : key' ∈ store'.keys)
    (htrusted : key'.status = .trusted) :
    ∃ before after approvedBy,
      store.events ++ new = before ++ .trusted key'.pk approvedBy :: after ∧
        ∀ user, .rejected key'.pk user ∉ after := by
  rcases trusted_writes hholds hwrites hkey' htrusted with
    ⟨key, hkey, hpk, _, hwas, _⟩ | ⟨candidate, hcandidate, hpk, _⟩
  · obtain ⟨before, after, approvedBy, hevents, hafter⟩ := h.approved key hkey hwas
    refine ⟨before, after ++ new, approvedBy, ?_, ?_⟩
    · rw [hevents, hpk, List.append_assoc, List.cons_append]
    · intro user hmem
      rcases List.mem_append.mp hmem with hold | hnew
      · exact hafter user (hpk ▸ hold)
      · cases hlogged with
        | rejected candidateId other candidate hphase =>
          obtain ⟨row, hrow, hrowPk, hrejected⟩ := rejected_writes hholds hwrites hphase
          obtain ⟨hsame, _⟩ : key'.pk = candidate.pk ∧ user = other := by
            simpa using List.mem_singleton.mp hnew
          rw [store'.keys.eq_of_key_eq hkey' hrow (hsame.trans hrowPk.symm), hrejected] at htrusted
          cases htrusted
        | _ => simp at hnew
  · cases hlogged with
    | approved read approvedBy previous hphase =>
      rw [hphase] at hcandidate
      obtain rfl : read = candidate := Option.some.inj hcandidate
      exact ⟨store.events, [], approvedBy, by rw [hpk], fun user h => by cases h⟩
    | _ =>
      rename_i hphase
      rw [hphase] at hcandidate
      cases hcandidate

theorem history_writes (h : History store) (hholds : Holds store t)
    (hwrites : writes store now t.phase = some store') : History store' := by
  obtain ⟨new, hlogged, hevents⟩ := logged_writes hwrites
  have hcommitted := committed_writes hholds hwrites
  have hautomatic : ∀ pk, .trusted pk none ∈ new → .recorded pk true ∈ store.events ∧
      ∀ user, .rejected pk user ∉ store.events := by
    intro pk hmem
    cases hlogged with
    | approved candidate approvedBy previous hphase =>
      simp only [List.mem_singleton, KeyEvent.trusted.injEq] at hmem
      obtain ⟨rfl, rfl⟩ := hmem
      obtain ⟨halone, hcandidate, hpending⟩ := automatic_approval h hholds hphase
      refine ⟨halone, fun user hrejected => ?_⟩
      obtain ⟨key, hkey, hpk, hstatus⟩ := h.decided _ _ hrejected
      rw [store.keys.eq_of_key_eq hkey hcandidate hpk] at hstatus
      exact hstatus hpending
    | _ => simp at hmem
  constructor
  · intro key' hkey'
    rw [hevents]
    exact alone_writes h hholds hwrites hlogged hkey'
  · intro pk hmem
    rw [hevents] at hmem ⊢
    apply List.mem_append_left
    rcases List.mem_append.mp hmem with hold | hnew
    · exact h.automatic pk hold
    · exact (hautomatic pk hnew).1
  · intro pk user hmem
    rw [hevents] at hmem
    rcases List.mem_append.mp hmem with hold | hnew
    · obtain ⟨key, hkey, hpk, hstatus⟩ := h.decided pk user hold
      obtain ⟨key', hkey', hsame, _, hpending⟩ := hcommitted.persists key hkey
      exact ⟨key', hkey', hsame.trans hpk, fun hp => hstatus (hpending hp)⟩
    · cases hlogged with
      | rejected candidateId other candidate hphase =>
        simp only [List.mem_singleton, KeyEvent.rejected.injEq] at hnew
        obtain ⟨key', hkey', hpk, hrejected⟩ := rejected_writes hholds hwrites hphase
        exact ⟨key', hkey', hpk.trans hnew.1.symm, by rw [hrejected]; decide⟩
      | _ => simp at hnew
  · rw [hevents, List.pairwise_append]
    refine ⟨h.order, ?_, ?_⟩
    · cases hlogged <;> simp
    · rintro a ha b hb pk user rfl rfl
      exact (hautomatic pk hb).2 user ha
  · intro key' hkey' htrusted
    rw [hevents]
    exact approved_writes h hholds hwrites hlogged hkey' htrusted

end History

section Invariant

structure Inv (s : State) : Prop where
  exclusive : Exclusive s
  holds : AllTxns Holds s
  apart : ∀ t ∈ s.txns, ∀ t' ∈ s.txns, ∀ e, t.phase.approves = some e →
    t'.phase.approves = some e → t = t'
  once : TrustedOnce s.store.keys
  history : History s.store

/-- The key that a user's approval has locked and not yet decided about. -/
def Phase.userCandidate? : Phase → Option SSHHostKey
  | .locked (.trustHostKey _ _) candidate => some candidate
  | _ => none

/-- A user's approval looks for the trusted rows of its endpoint while no other
transaction has decided to trust a key there and not yet committed. -/
def ApprovalsApart (s : State) : Label → Prop
  | .query txn => ∀ t ∈ s.txns.rows, t.pk = txn → ∀ candidate ∈ t.phase.userCandidate?,
    ∀ other ∈ s.txns.rows, other.pk ≠ txn → other.phase.approves ≠ some candidate.endpoint
  | _ => True

instance decidableApprovalsApart (s : State) : ∀ label, Decidable (ApprovalsApart s label)
  | .query txn => inferInstanceAs (Decidable (∀ t ∈ s.txns.rows, t.pk = txn →
    ∀ candidate ∈ t.phase.userCandidate?, ∀ other ∈ s.txns.rows, other.pk ≠ txn →
      other.phase.approves ≠ some candidate.endpoint))
  | .begin _ | .read _ | .lockPrevious _ _ | .commit _ _ | .abort _ => isTrue trivial

variable {s s' : State} {txn : ℕ}

theorem inv_initial : Inv initial where
  exclusive t ht := absurd ht (Table.mem_empty t)
  holds t ht := absurd ht (Table.mem_empty t)
  apart t ht := absurd ht (Table.mem_empty t)
  once key hkey := absurd hkey (Table.mem_empty key)
  history := history_initial

theorem inv_openTxn (h : Inv s) (operation : Operation) : Inv (openTxn s (.opened operation)) where
  exclusive := exclusive_openTxn h.exclusive
  holds := allTxns_openTxn h.holds (fun _ => trivial)
  apart := by
    intro t ht t' ht' e he he'
    rcases mem_openTxn.mp ht with hold | rfl
    · rcases mem_openTxn.mp ht' with hold' | rfl
      · exact h.apart t hold t' hold' e he he'
      · cases he'
    · cases he
  once := h.once
  history := h.history

/-- A statement of a transaction keeps the invariant when the locks it takes are
free, it relies on the truth, and no other transaction approves where it does. -/
theorem inv_advance {keys : List ℕ} {phase : Phase} (h : Inv s)
    (hfree : ∀ k ∈ keys, lockedByOther s txn k = false)
    (hholds : ∀ t ∈ s.txns, t.pk = txn → Holds s.store (moveTo keys phase t))
    (hapart : ∀ e, phase.approves = some e → ∀ t ∈ s.txns, t.pk ≠ txn → t.phase.approves ≠ some e) :
    Inv (advance s txn keys phase) where
  exclusive := exclusive_advance h.exclusive hfree
  holds := allTxns_advance h.holds hholds
  apart := by
    intro t ht t' ht' e he he'
    rcases mem_advance.mp ht with ⟨hold, hne⟩ | ⟨u, hu, hpk, rfl⟩
    · rcases mem_advance.mp ht' with ⟨hold', _⟩ | ⟨u', _, _, rfl⟩
      · exact h.apart t hold t' hold' e he he'
      · exact absurd he (hapart e he' t hold hne)
    · rcases mem_advance.mp ht' with ⟨hold', hne'⟩ | ⟨u', hu', hpk', rfl⟩
      · exact absurd he' (hapart e he t' hold' hne')
      · rw [s.txns.eq_of_key_eq hu hu' (hpk.trans hpk'.symm)]
  once := h.once
  history := h.history

/-- A transaction that ends without a write, by a return or a rollback. -/
theorem inv_endTxn (h : Inv s) : Inv (endTxn s txn s.store) where
  exclusive := exclusive_endTxn h.exclusive
  holds := allTxns_endTxn h.holds (fun _ _ _ => id)
  apart t ht t' ht' := h.apart t (mem_endTxn.mp ht).1 t' (mem_endTxn.mp ht').1
  once := h.once
  history := h.history

theorem inv_commit {t : Txn ℕ Phase} {store : Store} {now : Instant} (h : Inv s) (ht : t ∈ s.txns)
    (hwrites : writes s.store now t.phase = some store) : Inv (endTxn s t.pk store) where
  exclusive := exclusive_endTxn h.exclusive
  holds := by
    apply allTxns_endTxn h.holds
    intro other hother hne hholds
    refine holds_committed hholds (committed_writes (h.holds t ht) hwrites) ?_ ?_
    · intro pk hheld hmem
      exact hne (congrArg Txn.pk (h.exclusive other hother t ht pk hheld hmem))
    · intro e he happroves
      exact hne (congrArg Txn.pk (h.apart other hother t ht e he happroves))
  apart u hu u' hu' := h.apart u (mem_endTxn.mp hu).1 u' (mem_endTxn.mp hu').1
  once := trustedOnce_writes (h.holds t ht) hwrites h.once
  history := history_writes h.history (h.holds t ht) hwrites

theorem lockRow_eq_some {key : SSHHostKey} {phase : Phase}
    (h : lockRow s txn key phase = some s') :
    lockedByOther s txn key.pk = false ∧ s' = advance s txn [key.pk] phase := by
  unfold lockRow at h
  cases hlocked : lockedByOther s txn key.pk with
  | true => simp [hlocked] at h
  | false =>
    rw [hlocked] at h
    exact ⟨rfl, (Option.some.inj h).symm⟩

theorem inv_lockRow {key : SSHHostKey} {phase : Phase} (h : Inv s)
    (hlock : lockRow s txn key phase = some s')
    (hholds : ∀ t ∈ s.txns, t.pk = txn → Holds s.store (moveTo [key.pk] phase t))
    (hapart : ∀ e, phase.approves = some e → ∀ t ∈ s.txns, t.pk ≠ txn → t.phase.approves ≠ some e) :
    Inv s' := by
  obtain ⟨hfree, rfl⟩ := lockRow_eq_some hlock
  refine inv_advance h ?_ hholds hapart
  intro k hk
  rw [List.mem_singleton.mp hk]
  exact hfree

theorem inv_readIdentity {offered : OfferedKey} (h : Inv s)
    (hread : readIdentity s txn offered = some s') : Inv s' := by
  unfold readIdentity at hread
  split at hread
  · rw [← Option.some.inj hread]
    exact inv_advance h (by simp) (fun _ _ _ pk hpk => by cases hpk) (fun e he => by cases he)
  · refine inv_lockRow h hread ?_ (fun e he => by cases he)
    rintro u _ _ pk ⟨⟩
    exact List.mem_append_right _ (List.mem_singleton_self _)

theorem inv_lockCandidate {operation : Operation} (h : Inv s)
    (hread : lockCandidate s txn operation = some s') : Inv s' := by
  obtain ⟨key, hfound, hlock⟩ := Option.bind_eq_some_iff.mp hread
  obtain ⟨pk, _, hget⟩ := Option.bind_eq_some_iff.mp hfound
  refine inv_lockRow h hlock ?_ (fun e he => by cases he)
  intro u _ _
  exact ⟨List.mem_append_right _ (List.mem_singleton_self _),
    ((s.store.keys.get?_eq_some_iff _ _).mp hget).1⟩

theorem inv_read {phase : Phase} (h : Inv s) (hread : read s txn phase = some s') : Inv s' := by
  unfold read at hread
  split at hread
  · exact inv_readIdentity h hread
  · exact inv_lockCandidate h hread
  · exact inv_readIdentity h hread
  · cases hread

/-- The query of an automatic approval finds its candidate alone at the endpoint,
so no other transaction can have locked a key there. -/
theorem inv_query {t : Txn ℕ Phase} (h : Inv s) (ht : t ∈ s.txns)
    (hguard : ApprovalsApart s (.query t.pk)) (hquery : query s t.pk t.phase = some s') :
    Inv s' := by
  have hholds := h.holds t ht
  have hapart := hguard t ht rfl
  have hown : ∀ u ∈ s.txns, u.pk = t.pk → u = t := fun u hu hpk => s.txns.eq_of_key_eq hu ht hpk
  cases hphase : t.phase with
  | locked operation candidate =>
    rw [hphase] at hquery
    unfold Holds at hholds
    rw [hphase] at hholds
    obtain ⟨hheld, hcandidate⟩ := hholds
    cases operation with
    | trustFirstSeenHostKey candidateId =>
      simp only [query] at hquery
      split at hquery
      · rw [← Option.some.inj hquery]
        exact inv_endTxn h
      · rename_i hnot
        obtain ⟨hpending, halone⟩ := not_or.mp hnot
        have halone : ∀ key ∈ s.store.keys, key.endpoint = candidate.endpoint →
            key = candidate := by
          intro key hkey hsame
          by_contra hne
          refine halone (List.any_eq_true.mpr ⟨key, hkey, ?_⟩)
          have hpk : key.pk ≠ candidate.pk := fun heq =>
            hne (s.store.keys.eq_of_key_eq hkey hcandidate heq)
          simp [isOther, hsame, hpk]
        rw [← Option.some.inj hquery]
        apply inv_advance h (by simp)
        · intro u hu hpk
          obtain rfl := hown u hu hpk
          refine ⟨List.mem_append_left _ hheld, hcandidate, by simp, ?_, ?_⟩
          · intro key hkey hsame _ hne
            exact absurd (congrArg SSHHostKey.pk (halone key hkey hsame)) hne
          · intro _
            refine ⟨not_not.mp hpending, ?_⟩
            intro key hkey hsame
            rw [halone key hkey hsame]
        · intro e he other hother hne happroves
          obtain ⟨approved, happroved, hendpoint⟩ := Option.map_eq_some_iff.mp happroves
          have hholdsOther := h.holds other hother
          unfold Holds at hholdsOther
          cases hotherPhase : other.phase with
          | approving read approvedBy left previous =>
            rw [hotherPhase] at happroved hholdsOther
            obtain rfl : read = approved := Option.some.inj happroved
            have hsame : read = candidate :=
              halone read hholdsOther.2.1 (hendpoint.trans (Option.some.inj he).symm)
            exact hne (congrArg Txn.pk (h.exclusive other hother t ht candidate.pk
              (hsame ▸ hholdsOther.1) hheld))
          | _ =>
            rw [hotherPhase] at happroved
            cases happroved
    | trustHostKey candidateId user =>
      simp only [query, Option.some.injEq] at hquery
      rw [← hquery]
      apply inv_advance h (by simp)
      · intro u hu hpk
        obtain rfl := hown u hu hpk
        refine ⟨List.mem_append_left _ hheld, hcandidate, by simp, ?_, by simp⟩
        intro key hkey hsame htrusted hne
        refine Or.inl (List.mem_map_of_mem (List.mem_filter.mpr ⟨hkey, ?_⟩))
        simp [isOther, hsame, htrusted, hne]
      · intro e he other hother hne
        rw [← he]
        exact hapart candidate (by rw [hphase]; rfl) other hother hne
    | _ => simp [query] at hquery
  | _ => simp [hphase, query] at hquery

theorem inv_lockPrevious {t : Txn ℕ Phase} {pk : ℕ} (h : Inv s) (ht : t ∈ s.txns)
    (hlock : lockPrevious s t.pk pk t.phase = some s') : Inv s' := by
  have hholds := h.holds t ht
  cases hphase : t.phase with
  | approving candidate approvedBy left previous =>
    unfold Holds at hholds
    rw [hphase] at hholds hlock
    obtain ⟨hheld, hcandidate, hprevious, htrusted, hfirst⟩ := hholds
    simp only [lockPrevious] at hlock
    split at hlock
    · obtain ⟨key, hget, hlock⟩ := Option.bind_eq_some_iff.mp hlock
      obtain ⟨hkey, rfl⟩ := (s.store.keys.get?_eq_some_iff _ _).mp hget
      apply inv_lockRow h hlock
      · intro u hu hpk
        obtain rfl := s.txns.eq_of_key_eq hu ht hpk
        refine ⟨List.mem_append_left _ hheld, hcandidate, ?_, ?_, hfirst⟩
        · intro pk hmem
          split at hmem
          · rcases List.mem_append.mp hmem with hold | hnew
            · exact List.mem_append_left _ (hprevious pk hold)
            · exact List.mem_append_right _ hnew
          · exact List.mem_append_left _ (hprevious pk hmem)
        · intro other hother hsame hstatus hne
          by_cases heq : other.pk = key.pk
          · right
            rw [s.store.keys.eq_of_key_eq hother hkey heq] at hstatus ⊢
            rw [if_pos hstatus]
            exact List.mem_append_right _ (List.mem_singleton_self _)
          · rcases htrusted other hother hsame hstatus hne with hleft | hdone
            · exact Or.inl ((List.mem_erase_of_ne heq).mpr hleft)
            · right
              split
              · exact List.mem_append_left _ hdone
              · exact hdone
      · intro e he other hother hne happroves
        have hsame := h.apart other hother t ht e happroves (by rw [hphase]; exact he)
        exact hne (congrArg Txn.pk hsame)
    · cases hlock
  | _ => simp [hphase, lockPrevious] at hlock

theorem inv_step (label : Label) (h : Inv s) (hguard : ApprovalsApart s label)
    (hstep : step s label = some s') : Inv s' := by
  cases label with
  | begin operation =>
    rw [← Option.some.inj hstep]
    exact inv_openTxn h operation
  | read txn =>
    obtain ⟨t, _, hread⟩ := Option.bind_eq_some_iff.mp hstep
    exact inv_read h hread
  | query txn =>
    obtain ⟨t, hget, hquery⟩ := Option.bind_eq_some_iff.mp hstep
    obtain ⟨ht, rfl⟩ := (s.txns.get?_eq_some_iff _ _).mp hget
    exact inv_query h ht hguard hquery
  | lockPrevious txn pk =>
    obtain ⟨t, hget, hlock⟩ := Option.bind_eq_some_iff.mp hstep
    obtain ⟨ht, rfl⟩ := (s.txns.get?_eq_some_iff _ _).mp hget
    exact inv_lockPrevious h ht hlock
  | commit txn now =>
    obtain ⟨t, hget, hcommit⟩ := Option.bind_eq_some_iff.mp hstep
    obtain ⟨ht, rfl⟩ := (s.txns.get?_eq_some_iff _ _).mp hget
    obtain ⟨store, hwrites, rfl⟩ := Option.map_eq_some_iff.mp hcommit
    exact inv_commit h ht hwrites
  | abort txn =>
    obtain ⟨t, _, rfl⟩ := Option.map_eq_some_iff.mp hstep
    exact inv_endTxn h

end Invariant

section Results

/-- What the operations promise of the keys: no two accepted identities at one
endpoint, automatic approvals for keys that were recorded alone, and after a
user's rejection only approvals by users. -/
structure TrustKept (store : Store) : Prop where
  once : TrustedOnce store.keys
  approved : ∀ key ∈ store.keys, key.status = .trusted →
    ∃ approvedBy, .trusted key.pk approvedBy ∈ store.events
  automatic : ∀ pk, .trusted pk none ∈ store.events → .recorded pk true ∈ store.events
  rejected : ∀ before after pk user, store.events = before ++ .rejected pk user :: after →
    .trusted pk none ∉ after ∧
      ∀ key ∈ store.keys, key.pk = pk → key.status = .trusted →
        ∃ user, .trusted pk (some user) ∈ after

theorem trustKept_of_inv {s : State} (h : Inv s) : TrustKept s.store where
  once := h.once
  approved := by
    intro key hkey htrusted
    obtain ⟨before, after, approvedBy, hevents, _⟩ := h.history.approved key hkey htrusted
    exact ⟨approvedBy, hevents ▸ List.mem_append_right _ List.mem_cons_self⟩
  automatic := h.history.automatic
  rejected := by
    intro before after pk user hevents
    have horder := h.history.order
    rw [hevents, List.pairwise_append, List.pairwise_cons] at horder
    have huser : .trusted pk none ∉ after := fun hmem =>
      horder.2.1.1 _ hmem pk user rfl rfl
    refine ⟨huser, ?_⟩
    rintro key hkey rfl htrusted
    obtain ⟨before', after', approvedBy, hevents', hlast⟩ := h.history.approved key hkey htrusted
    rw [hevents] at hevents'
    have hmem : .trusted key.pk approvedBy ∈ after := by
      rcases List.append_eq_append_iff.mp hevents' with ⟨between, _, heq⟩ | ⟨between, _, heq⟩
      · cases between with
        | nil => cases heq
        | cons first rest =>
          rw [List.cons_append, List.cons.injEq] at heq
          exact heq.2 ▸ List.mem_append_right _ List.mem_cons_self
      · cases between with
        | nil => cases heq
        | cons first rest =>
          rw [List.cons_append, List.cons.injEq] at heq
          exact absurd (heq.2 ▸ List.mem_append_right _ List.mem_cons_self) (hlast user)
    cases approvedBy with
    | none => exact absurd hmem huser
    | some approvedBy => exact ⟨approvedBy, hmem⟩

/-- When no user's approval overlaps an undecided one of its endpoint, the keys are
trusted as the operations promise, in every state of the run. -/
theorem host_key_trust_kept {s : State} {labels : List Label}
    (hguard : Guarded step ApprovalsApart initial labels)
    (hrun : exec step initial labels = some s) : TrustKept s.store :=
  trustKept_of_inv (invariant_of_step Inv (fun _ label _ => inv_step label) inv_initial hguard hrun)

def offeredKey (publicKey : String) : OfferedKey :=
  ⟨⟨1, "192.0.2.1", 22⟩, "ssh-ed25519", publicKey, "SHA256:" ++ publicKey, "MD5:" ++ publicKey⟩

/-- The transaction `txn` records the key in a scan. -/
def scanKey (txn : ℕ) (publicKey : String) : List Label :=
  [.begin (.scanTargetHostKey (offeredKey publicKey)), .read txn, .commit txn 0]

/-- The first key is trusted automatically; a user replaces it by the second one. -/
def replacement : List Label :=
  scanKey 1 "first" ++ [.begin (.trustFirstSeenHostKey 1), .read 2, .query 2, .commit 2 1] ++
    scanKey 3 "second" ++
    [.begin (.trustHostKey 2 7), .read 4, .query 4, .lockPrevious 4 1, .commit 4 2]

theorem host_key_trust_kept_replacement :
    ∃ s, exec step initial replacement = some s ∧
      s.store.keys.rows.map SSHHostKey.status = [.rejected, .trusted] ∧ TrustKept s.store := by
  obtain ⟨s, hrun, hstatus⟩ := (Option.any_eq_true _ _).mp (by decide +kernel :
    (exec step initial replacement).any
      (fun s => decide (s.store.keys.rows.map SSHHostKey.status = [.rejected, .trusted])) = true)
  exact ⟨s, hrun, of_decide_eq_true hstatus,
    host_key_trust_kept (by decide +kernel : Guarded step ApprovalsApart initial replacement) hrun⟩

/-- Two users approve the two keys of a device at once: each query misses the
approval that the other has not committed. -/
def overlappingApprovals : List Label :=
  scanKey 1 "first" ++ scanKey 2 "second" ++
    [.begin (.trustHostKey 1 7), .begin (.trustHostKey 2 8), .read 3, .read 4, .query 3, .query 4,
      .commit 3 1, .commit 4 2]

theorem two_trusted_host_keys :
    ¬ ∀ (labels : List Label) (s : State), exec step initial labels = some s →
      s.txns.rows = [] → TrustKept s.store := by
  intro h
  obtain ⟨s, hrun, hs⟩ := (Option.any_eq_true _ _).mp (by decide +kernel :
    (exec step initial overlappingApprovals).any (fun s => decide (s.txns.rows = []) &&
      decide (∃ key ∈ s.store.keys.rows, ∃ other ∈ s.store.keys.rows,
        key.endpoint = other.endpoint ∧ key.status = .trusted ∧ other.status = .trusted ∧
          key.pk ≠ other.pk)) = true)
  obtain ⟨hclosed, htwo⟩ := Bool.and_eq_true_iff.mp hs
  obtain ⟨key, hkey, other, hother, hendpoint, hkeyTrusted, hotherTrusted, hne⟩ :=
    of_decide_eq_true htwo
  have honce := (h _ s hrun (of_decide_eq_true hclosed)).once
  exact hne (congrArg SSHHostKey.pk
    (honce key hkey other hother hendpoint hkeyTrusted hotherTrusted))

end Results

end ConfigBackup.HostKeys
