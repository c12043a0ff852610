import ConfigBackup.Calendar
import ConfigBackup.CredentialCipher
import ConfigBackup.Tables
import ConfigBackup.Transactions

/-!
The rotation of the master key. One transaction locks the rows of both tables of
secrets, decrypts every row, encrypts the rows of other versions again with the
active key, and verifies all rows before it commits.
-/

namespace ConfigBackup.MasterKeyRotation

open Calendar CredentialCipher Tables Transactions

/-- A row of `StoredCredential` or `DownloadEncryptionSecret`. -/
structure StoredSecret (γ : Type) where
  pk : ℕ
  reference : String
  ciphertext : γ
  nonce : ByteArray
  keyVersion : String
  rotatedAt : Option Instant

structure Vault (γ : Type) where
  storedCredentials : Table (StoredSecret γ) StoredSecret.pk
  downloadEncryptionSecrets : Table (StoredSecret γ) StoredSecret.pk

/-- The oracles of one run: the calls that fail, the nonces by call, and the clock. -/
structure RotationRun where
  fails : ℕ → Bool
  nonceFactory : ℕ → Option ByteArray
  now : Instant

abbrev RotationProgram (γ α : Type) := Program (Vault γ) Unit Failure α

variable {γ : Type} (cipher : DatabaseCredentialCipher γ) (activeVersion : String)
  (run : RotationRun)

/-- `Command._decrypt`. -/
def decryptStored (stored : StoredSecret γ) : Except Failure String :=
  match cipher.decrypt stored.reference stored.ciphertext stored.nonce stored.keyVersion with
  | .error (.masterKey _) => .error
    (.command "Encrypted secret verification failed; no secret material was displayed.")
  | answer => answer

section Verify

/-- The verified rows and those of another version. -/
def verifyRows : List (StoredSecret γ) → Except Failure (ℕ × ℕ)
  | [] => .ok (0, 0)
  | stored :: rest => do
    let _ ← decryptStored cipher stored
    let (verified, pending) ← verifyRows rest
    pure (verified + 1, pending + if stored.keyVersion = activeVersion then 0 else 1)

/-- `Command._verify`. -/
def verify : RotationProgram γ (ℕ × ℕ) := do
  let credentials ← statement run.fails .database (fun v => (v.storedCredentials.rows, v))
  let first ← ofExcept (verifyRows cipher activeVersion credentials)
  let secrets ← statement run.fails .database (fun v => (v.downloadEncryptionSecrets.rows, v))
  let second ← ofExcept (verifyRows cipher activeVersion secrets)
  pure (first.1 + second.1, first.2 + second.2)

end Verify

section Rotate

def reencrypted (payload : EncryptedPayload γ) (stored : StoredSecret γ) : StoredSecret γ :=
  { stored with
    ciphertext := payload.ciphertext
    nonce := payload.nonce
    keyVersion := payload.keyVersion
    rotatedAt := some run.now }

/-- The loop over the locked rows of one table; it gives the changed rows. -/
def reencryptRows : List (StoredSecret γ) → RotationProgram γ (List (StoredSecret γ))
  | [] => pure []
  | stored :: rest => do
    let plaintext ← ofExcept (decryptStored cipher stored)
    if stored.keyVersion = activeVersion then reencryptRows rest
    else do
      let n ← nextCall
      let payload ← ofExcept (cipher.encrypt (run.nonceFactory n) stored.reference plaintext)
      let changed ← reencryptRows rest
      pure (reencrypted run payload stored :: changed)

/-- The fields that `bulk_update` writes. -/
def withSecret (changed stored : StoredSecret γ) : StoredSecret γ :=
  { stored with
    ciphertext := changed.ciphertext
    nonce := changed.nonce
    keyVersion := changed.keyVersion
    rotatedAt := changed.rotatedAt }

@[simp] theorem withSecret_pk (changed stored : StoredSecret γ) :
    (withSecret changed stored).pk = stored.pk := rfl

def writeSecrets (changed : List (StoredSecret γ))
    (table : Table (StoredSecret γ) StoredSecret.pk) : Table (StoredSecret γ) StoredSecret.pk :=
  changed.foldl (fun table c => table.update c.pk (withSecret c) (withSecret_pk c)) table

/-- Consecutive parts of at most `size` items. -/
def batches {α : Type} (size : ℕ) : ℕ → List α → List (List α)
  | 0, _ => []
  | _ + 1, [] => []
  | fuel + 1, items => items.take size :: batches size fuel (items.drop size)

/-- A statement for each batch of changed rows. -/
def bulkUpdate (write : List (StoredSecret γ) → Vault γ → Vault γ) :
    List (List (StoredSecret γ)) → RotationProgram γ Unit
  | [] => pure ()
  | batch :: rest => do
    statement run.fails .database (fun v => ((), write batch v))
    bulkUpdate write rest

def writeCredentials (changed : List (StoredSecret γ)) (v : Vault γ) : Vault γ :=
  { v with storedCredentials := writeSecrets changed v.storedCredentials }

def writeDownloadSecrets (changed : List (StoredSecret γ)) (v : Vault γ) : Vault γ :=
  { v with downloadEncryptionSecrets := writeSecrets changed v.downloadEncryptionSecrets }

/-- `Command._rotate`; the numbers of rotated and verified rows. -/
def rotate : RotationProgram γ (ℕ × ℕ) := atomic run.fails .database do
  let credentials ← statement run.fails .database (fun v => (v.storedCredentials.rows, v))
  let secrets ← statement run.fails .database (fun v => (v.downloadEncryptionSecrets.rows, v))
  let changed ← reencryptRows cipher activeVersion run credentials
  bulkUpdate run writeCredentials (batches 200 changed.length changed)
  let changedSecrets ← reencryptRows cipher activeVersion run secrets
  bulkUpdate run writeDownloadSecrets (batches 200 changedSecrets.length changedSecrets)
  let (verified, pending) ← verify cipher activeVersion run
  if pending ≠ 0 then
    throw (.command "Rotation verification found encrypted secrets on a previous key version.")
  else pure (changed.length + changedSecrets.length, verified)

end Rotate

section Writes

variable {run} {α : Type}

theorem flatten_batches {size : ℕ} (hsize : 0 < size) (fuel : ℕ) (items : List α)
    (hfuel : items.length ≤ fuel) : (batches size fuel items).flatten = items := by
  induction fuel generalizing items with
  | zero => simp [batches, List.length_eq_zero_iff.mp (Nat.le_zero.mp hfuel)]
  | succ fuel ih =>
    cases items with
    | nil => rfl
    | cons a rest =>
      rw [batches, List.flatten_cons, ih]
      · exact List.take_append_drop ..
      · simp only [List.length_drop, List.length_cons] at hfuel ⊢
        omega
      · simp

/-- The batches write what one update of all rows would write. -/
theorem returns_bulkUpdate {write : List (StoredSecret γ) → Vault γ → Vault γ}
    (happend : ∀ a b v, write (a ++ b) v = write b (write a v)) (hnil : ∀ v, write [] v = v)
    {parts : List (List (StoredSecret γ))} {s t : Session (Vault γ) Unit} {u : Unit}
    (h : Returns (bulkUpdate run write parts) s u t) : t.db = write parts.flatten s.db := by
  induction parts generalizing s with
  | nil =>
    rw [← (returns_pure.mp h).2]
    exact (hnil s.db).symm
  | cons batch rest ih =>
    obtain ⟨_, mid, hbatch, hrest⟩ := returns_bind.mp h
    rw [ih hrest, (returns_statement hbatch).2.1, List.flatten_cons, happend]

theorem writeSecrets_append (a b : List (StoredSecret γ))
    (table : Table (StoredSecret γ) StoredSecret.pk) :
    writeSecrets (a ++ b) table = writeSecrets b (writeSecrets a table) :=
  List.foldl_append

/-- A row that no changed row names keeps its fields. -/
theorem get?_writeSecrets_other {changed : List (StoredSecret γ)} {pk : ℕ}
    (hother : ∀ c ∈ changed, c.pk ≠ pk) (table : Table (StoredSecret γ) StoredSecret.pk) :
    (writeSecrets changed table).get? pk = table.get? pk := by
  induction changed generalizing table with
  | nil => rfl
  | cons c rest ih =>
    show (writeSecrets rest (table.update c.pk (withSecret c) (withSecret_pk c))).get? pk = _
    rw [ih (fun d hd => hother d (List.mem_cons_of_mem c hd)), Table.get?_update,
      if_neg (Ne.symm (hother c List.mem_cons_self))]

/-- A row takes the fields of the changed row that names it. -/
theorem get?_writeSecrets {changed : List (StoredSecret γ)}
    (hdistinct : (changed.map StoredSecret.pk).Nodup) {c : StoredSecret γ} (hc : c ∈ changed)
    (table : Table (StoredSecret γ) StoredSecret.pk) :
    (writeSecrets changed table).get? c.pk = (table.get? c.pk).map (withSecret c) := by
  induction changed generalizing table with
  | nil => cases hc
  | cons d rest ih =>
    rw [List.map_cons, List.nodup_cons] at hdistinct
    show (writeSecrets rest (table.update d.pk (withSecret d) (withSecret_pk d))).get? c.pk = _
    rcases List.mem_cons.mp hc with rfl | hrest
    · rw [get?_writeSecrets_other, Table.get?_update, if_pos rfl]
      intro e he heq
      exact hdistinct.1 (heq ▸ List.mem_map_of_mem he)
    · rw [ih hdistinct.2 hrest, Table.get?_update, if_neg]
      intro heq
      exact hdistinct.1 (heq ▸ List.mem_map_of_mem hrest)

end Writes

section Rows

variable {cipher activeVersion run} {key : ByteArray}

/-- The new row holds the secret of the old one, for the active key alone. -/
structure Rotated (cipher : DatabaseCredentialCipher γ) (activeVersion : String)
    (old new : StoredSecret γ) : Prop where
  pk : new.pk = old.pk
  reference : new.reference = old.reference
  keyVersion : new.keyVersion = activeVersion
  plaintext : ∃ text,
    cipher.decrypt old.reference old.ciphertext old.nonce old.keyVersion = .ok text ∧
      cipher.activeOnly.decrypt new.reference new.ciphertext new.nonce new.keyVersion = .ok text

theorem decryptStored_eq_ok {stored : StoredSecret γ} {text : String}
    (h : decryptStored cipher stored = .ok text) :
    cipher.decrypt stored.reference stored.ciphertext stored.nonce stored.keyVersion =
      .ok text := by
  unfold decryptStored at h
  split at h
  · cases h
  · exact h

/-- What the loop over the rows of a table has found and made. -/
structure Reencrypted (cipher : DatabaseCredentialCipher γ) (activeVersion : String)
    (rows changed : List (StoredSecret γ)) : Prop where
  sublist : (changed.map StoredSecret.pk).Sublist (rows.map StoredSecret.pk)
  active : ∀ row ∈ rows, row.keyVersion = activeVersion → Rotated cipher activeVersion row row
  rotated : ∀ row ∈ rows, row.keyVersion ≠ activeVersion →
    ∃ c ∈ changed, Rotated cipher activeVersion row c ∧ withSecret c row = c
  changed : ∀ c ∈ changed, ∃ row ∈ rows, row.pk = c.pk ∧ row.keyVersion ≠ activeVersion

theorem returns_reencryptRows (hactive : cipher.activeKey = .ok (key, activeVersion))
    {rows changed : List (StoredSecret γ)} {s t : Session (Vault γ) Unit}
    (h : Returns (reencryptRows cipher activeVersion run rows) s changed t) :
    t.db = s.db ∧ Reencrypted cipher activeVersion rows changed := by
  induction rows generalizing s changed with
  | nil =>
    obtain ⟨rfl, rfl⟩ := returns_pure.mp h
    exact ⟨rfl, List.Sublist.refl _, by simp, by simp, by simp⟩
  | cons stored rest ih =>
    obtain ⟨text, s₁, hdecrypted, h⟩ := returns_bind.mp h
    obtain ⟨hstored, rfl⟩ := returns_ofExcept.mp hdecrypted
    have hplain := decryptStored_eq_ok hstored
    by_cases hversion : stored.keyVersion = activeVersion
    · rw [if_pos hversion] at h
      obtain ⟨hdb, hrest⟩ := ih h
      have hsame : Rotated cipher activeVersion stored stored := by
        refine ⟨rfl, rfl, hversion, text, hplain, ?_⟩
        rw [hversion] at hplain ⊢
        exact DatabaseCredentialCipher.decrypt_activeOnly hactive hplain
      refine ⟨hdb, hrest.sublist.cons _, ?_, ?_, ?_⟩
      · rintro row hrow hrowVersion
        rcases List.mem_cons.mp hrow with rfl | hrow
        · exact hsame
        · exact hrest.active row hrow hrowVersion
      · intro row hrow hrowVersion
        rcases List.mem_cons.mp hrow with rfl | hrow
        · exact absurd hversion hrowVersion
        · exact hrest.rotated row hrow hrowVersion
      · intro c hc
        obtain ⟨row, hrow, hpk, hrowVersion⟩ := hrest.changed c hc
        exact ⟨row, List.mem_cons_of_mem _ hrow, hpk, hrowVersion⟩
    · rw [if_neg hversion] at h
      obtain ⟨n, s₂, hcall, hthen⟩ := returns_bind.mp h
      obtain ⟨payload, s₃, hencrypted, hloopThen⟩ := returns_bind.mp hthen
      obtain ⟨changedRest, s₄, hloop, hend⟩ := returns_bind.mp hloopThen
      obtain ⟨hpayload, rfl⟩ := returns_ofExcept.mp hencrypted
      obtain ⟨rfl, rfl⟩ := returns_pure.mp hend
      obtain ⟨hdb, hrest⟩ := ih hloop
      obtain ⟨hnewVersion, hnew⟩ := DatabaseCredentialCipher.decrypt_encrypt hactive hpayload
      have hrotated : Rotated cipher activeVersion stored (reencrypted run payload stored) :=
        ⟨rfl, rfl, hnewVersion, text, hplain, hnew⟩
      refine ⟨?_, hrest.sublist.cons_cons _, ?_, ?_, ?_⟩
      · rw [hdb, ← (returns_nextCall.mp hcall).2]
      · intro row hrow hrowVersion
        rcases List.mem_cons.mp hrow with rfl | hrow
        · exact absurd hrowVersion hversion
        · exact hrest.active row hrow hrowVersion
      · intro row hrow hrowVersion
        rcases List.mem_cons.mp hrow with rfl | hrow
        · exact ⟨_, List.mem_cons_self, hrotated, rfl⟩
        · obtain ⟨c, hc, hrow⟩ := hrest.rotated row hrow hrowVersion
          exact ⟨c, List.mem_cons_of_mem _ hc, hrow⟩
      · intro c hc
        rcases List.mem_cons.mp hc with rfl | hc
        · exact ⟨stored, List.mem_cons_self, rfl, hversion⟩
        · obtain ⟨row, hrow, hpk, hrowVersion⟩ := hrest.changed c hc
          exact ⟨row, List.mem_cons_of_mem _ hrow, hpk, hrowVersion⟩

/-- Nothing is encrypted again while all rows have the active version. -/
theorem Reencrypted.eq_nil {rows changed : List (StoredSecret γ)}
    (h : Reencrypted cipher activeVersion rows changed)
    (hactive : ∀ row ∈ rows, row.keyVersion = activeVersion) : changed = [] := by
  rw [List.eq_nil_iff_forall_not_mem]
  intro c hc
  obtain ⟨row, hrow, _, hversion⟩ := h.changed c hc
  exact hversion (hactive row hrow)

/-- Every row of a table has a row of the other under its key, with the same secret
for the active key alone, and there are no further rows. -/
def AllRotated (cipher : DatabaseCredentialCipher γ) (activeVersion : String)
    (table table' : Table (StoredSecret γ) StoredSecret.pk) : Prop :=
  ∀ pk, Option.Rel (Rotated cipher activeVersion) (table.get? pk) (table'.get? pk)

theorem allRotated_writeSecrets {table : Table (StoredSecret γ) StoredSecret.pk}
    {changed : List (StoredSecret γ)} (h : Reencrypted cipher activeVersion table.rows changed) :
    AllRotated cipher activeVersion table (writeSecrets changed table) := by
  have hdistinct : (changed.map StoredSecret.pk).Nodup := by
    apply h.sublist.nodup
    rw [List.Nodup, List.pairwise_map]
    exact table.sorted.imp (fun hlt => Nat.ne_of_lt hlt)
  intro pk
  cases hrow : table.get? pk with
  | none =>
    rw [get?_writeSecrets_other, hrow]
    · exact Option.Rel.none
    · intro c hc heq
      obtain ⟨row, hmem, hpk, _⟩ := h.changed c hc
      exact (table.get?_eq_none_iff pk).mp hrow row hmem (hpk.trans heq)
  | some row =>
    obtain ⟨hmem, rfl⟩ := (table.get?_eq_some_iff _ _).mp hrow
    by_cases hversion : row.keyVersion = activeVersion
    · rw [get?_writeSecrets_other, hrow]
      · exact Option.Rel.some (h.active row hmem hversion)
      · intro c hc heq
        obtain ⟨other, hother, hpk, hotherVersion⟩ := h.changed c hc
        rw [table.eq_of_key_eq hother hmem (hpk.trans heq)] at hotherVersion
        exact hotherVersion hversion
    · obtain ⟨c, hc, hrotated, hwritten⟩ := h.rotated row hmem hversion
      rw [← hrotated.pk, get?_writeSecrets hdistinct hc, hrotated.pk, hrow, Option.map_some,
        hwritten]
      exact Option.Rel.some hrotated

theorem AllRotated.active {table table' : Table (StoredSecret γ) StoredSecret.pk}
    (h : AllRotated cipher activeVersion table table') :
    ∀ row ∈ table'.rows, row.keyVersion = activeVersion := by
  intro row hrow
  have hrel := h row.pk
  rw [table'.get?_of_mem hrow] at hrel
  generalize table.get? row.pk = old at hrel
  cases hrel with
  | some hrotated => exact hrotated.keyVersion

end Rows

section Results

theorem verify_db {s t : Session (Vault γ) Unit} {counts : ℕ × ℕ}
    (h : Returns (verify cipher activeVersion run) s counts t) : t.db = s.db := by
  obtain ⟨credentials, s₁, hcredentials, h⟩ := returns_bind.mp h
  obtain ⟨first, s₂, hfirst, h⟩ := returns_bind.mp h
  obtain ⟨secrets, s₃, hsecrets, h⟩ := returns_bind.mp h
  obtain ⟨second, s₄, hsecond, h⟩ := returns_bind.mp h
  rw [← (returns_pure.mp h).2, ← (returns_ofExcept.mp hsecond).2, (returns_statement hsecrets).2.1,
    ← (returns_ofExcept.mp hfirst).2, (returns_statement hcredentials).2.1]

variable {cipher activeVersion run} {key : ByteArray}

/-- A rotation that returns has written the changed rows of both tables. -/
theorem returns_rotate (hactive : cipher.activeKey = .ok (key, activeVersion))
    {s t : Session (Vault γ) Unit} {rotated verified : ℕ}
    (h : Returns (rotate cipher activeVersion run) s (rotated, verified) t) :
    ∃ changed changedSecrets,
      Reencrypted cipher activeVersion s.db.storedCredentials.rows changed ∧
      Reencrypted cipher activeVersion s.db.downloadEncryptionSecrets.rows changedSecrets ∧
      t.db = ⟨writeSecrets changed s.db.storedCredentials,
        writeSecrets changedSecrets s.db.downloadEncryptionSecrets⟩ ∧
      rotated = changed.length + changedSecrets.length := by
  obtain ⟨done, h, hdb, _⟩ := returns_atomic h
  obtain ⟨credentials, s₁, hcredentials, h⟩ := returns_bind.mp h
  obtain ⟨secrets, s₂, hsecrets, h⟩ := returns_bind.mp h
  obtain ⟨changed, s₃, hchanged, h⟩ := returns_bind.mp h
  obtain ⟨_, s₄, hwrite, h⟩ := returns_bind.mp h
  obtain ⟨changedSecrets, s₅, hchangedSecrets, h⟩ := returns_bind.mp h
  obtain ⟨_, s₆, hwriteSecrets, h⟩ := returns_bind.mp h
  obtain ⟨⟨verifiedRows, pending⟩, s₇, hverify, hend⟩ := returns_bind.mp h
  obtain ⟨rfl, hdb₁, _⟩ := returns_statement hcredentials
  obtain ⟨rfl, hdb₂, _⟩ := returns_statement hsecrets
  obtain ⟨hdb₃, hreencrypted⟩ := returns_reencryptRows hactive hchanged
  obtain ⟨hdb₅, hreencryptedSecrets⟩ := returns_reencryptRows hactive hchangedSecrets
  have hdb₄ := returns_bulkUpdate (fun a b v => by
    unfold writeCredentials
    rw [writeSecrets_append]) (fun _ => rfl) hwrite
  have hdb₆ := returns_bulkUpdate (fun a b v => by
    unfold writeDownloadSecrets
    rw [writeSecrets_append]) (fun _ => rfl) hwriteSecrets
  rw [flatten_batches (by omega) _ _ (le_refl _)] at hdb₄ hdb₆
  have hreturned : (changed.length + changedSecrets.length, verifiedRows) = (rotated, verified) ∧
      s₇ = done := by
    by_cases hpending : pending = 0
    · rw [hpending] at hend
      exact returns_pure.mp hend
    · simp only [ne_eq, hpending, not_false_eq_true, if_true] at hend
      exact absurd hend not_returns_throw
  obtain ⟨hcounts, rfl⟩ := hreturned
  refine ⟨changed, changedSecrets, ?_, ?_, ?_, (Prod.mk.inj hcounts).1.symm⟩
  · exact hreencrypted
  · rw [hdb₁] at hreencryptedSecrets
    exact hreencryptedSecrets
  · rw [hdb, verify_db _ _ _ hverify, hdb₆, hdb₅, hdb₄, hdb₃, hdb₂, hdb₁]
    rfl

/-- The rotation raises and leaves every row, or it returns and every row holds its
secret for the active key alone; a further run then changes nothing. The caller
passes the version of the active key. -/
theorem rotation_atomic_lossless (cipher : DatabaseCredentialCipher γ) (activeVersion : String)
    (key : ByteArray) (hactive : cipher.activeKey = .ok (key, activeVersion)) (run : RotationRun)
    (s : Session (Vault γ) Unit) :
    match rotate cipher activeVersion run s with
    | .error _ t => t.db = s.db
    | .ok _ t =>
      AllRotated cipher activeVersion s.db.storedCredentials t.db.storedCredentials ∧
        AllRotated cipher activeVersion s.db.downloadEncryptionSecrets
          t.db.downloadEncryptionSecrets ∧
        ∀ (again : RotationRun) (s' : Session (Vault γ) Unit), s'.db = t.db →
          match rotate cipher activeVersion again s' with
          | .error _ t' => t'.db = t.db
          | .ok (rotated, _) t' => rotated = 0 ∧ t'.db = t.db := by
  cases hrotate : rotate cipher activeVersion run s with
  | error e t => exact atomic_raises hrotate
  | ok counts t =>
    obtain ⟨changed, changedSecrets, hchanged, hchangedSecrets, hdb, _⟩ :=
      returns_rotate hactive hrotate
    have hcredentials : AllRotated cipher activeVersion s.db.storedCredentials
        t.db.storedCredentials := by
      rw [hdb]
      exact allRotated_writeSecrets hchanged
    have hsecrets : AllRotated cipher activeVersion s.db.downloadEncryptionSecrets
        t.db.downloadEncryptionSecrets := by
      rw [hdb]
      exact allRotated_writeSecrets hchangedSecrets
    refine ⟨hcredentials, hsecrets, ?_⟩
    intro again s' hsame
    cases hagain : rotate cipher activeVersion again s' with
    | error e t' => exact (atomic_raises hagain).trans hsame
    | ok counts' t' =>
      obtain ⟨changed', changedSecrets', hchanged', hchangedSecrets', hdb', hrotated⟩ :=
        returns_rotate hactive hagain
      rw [hsame] at hchanged' hchangedSecrets' hdb'
      rw [hchanged'.eq_nil hcredentials.active, hchangedSecrets'.eq_nil hsecrets.active]
        at hrotated hdb'
      exact ⟨hrotated, hdb'⟩

section Example

def keyText (c : Char) : String := String.ofList (List.replicate 43 c)

def zeroKey : ByteArray := ⟨⟨List.replicate 32 0⟩⟩

def previousKeyBytes : ByteArray :=
  ⟨⟨(List.replicate 10 [0x04, 0x10, 0x41]).flatten ++ [0x04, 0x10]⟩⟩

/-- A library that answers as the real one does on the two keys below, with a cipher
that keeps the key, the nonce and the associated data beside the plaintext. -/
def exampleLibrary : Library (ByteArray × ByteArray × ByteArray × ByteArray) where
  b64decode text :=
    if text = keyText 'A' ++ "=" then some zeroKey
    else if text = keyText 'B' ++ "=" then some previousKeyBytes
    else none
  jsonLoads text :=
    if text = "\x7b\"1\": \"" ++ keyText 'B' ++ "\"\x7d" then
      some (.object [("1", .string (keyText 'B'))])
    else none
  aeadEncrypt key nonce plaintext aad := some (key, nonce, plaintext, aad)
  aeadDecrypt key nonce ciphertext aad :=
    if ciphertext.1 = key ∧ ciphertext.2.1 = nonce ∧ ciphertext.2.2.2 = aad then
      some ciphertext.2.2.1
    else none
  decrypt_encrypt := by
    rintro key nonce plaintext aad ciphertext ⟨⟩
    exact if_pos ⟨rfl, rfl, rfl⟩

/-- Version 2 is active and version 1 is a previous key. -/
def exampleCipher : DatabaseCredentialCipher (ByteArray × ByteArray × ByteArray × ByteArray) where
  library := exampleLibrary
  environ name :=
    if name = masterKeyEnv then some (keyText 'A')
    else if name = keyVersionEnv then some " 2 "
    else if name = previousKeysEnv then some ("\x7b\"1\": \"" ++ keyText 'B' ++ "\"\x7d")
    else none

def exampleNonce : ByteArray := ⟨⟨List.replicate 12 7⟩⟩

def oldSecret : StoredSecret (ByteArray × ByteArray × ByteArray × ByteArray) where
  pk := 1
  reference := "7c9e6679-7425-40de-944b-e07fc1f90ae7"
  ciphertext := (previousKeyBytes, exampleNonce, "secret".toUTF8,
    aad "7c9e6679-7425-40de-944b-e07fc1f90ae7" "1")
  nonce := exampleNonce
  keyVersion := "1"
  rotatedAt := none

def exampleVault : Vault (ByteArray × ByteArray × ByteArray × ByteArray) where
  storedCredentials := Table.empty.insert (fun pk => { oldSecret with pk := pk }) (fun _ => rfl)
  downloadEncryptionSecrets := Table.empty

/-- No call fails. -/
def exampleRun : RotationRun := ⟨fun _ => false, fun _ => some exampleNonce, 5⟩

theorem activeKey_example : exampleCipher.activeKey = .ok (zeroKey, "2") := rfl

theorem rotation_atomic_lossless_example :
    ∃ t, rotate exampleCipher "2" exampleRun ⟨exampleVault, (), 0⟩ = .ok (1, 1) t ∧
      AllRotated exampleCipher "2" exampleVault.storedCredentials t.db.storedCredentials := by
  have hreturned : (match rotate exampleCipher "2" exampleRun ⟨exampleVault, (), 0⟩ with
      | .ok counts _ => decide (counts = (1, 1))
      | .error _ _ => false) = true := by decide +kernel
  have hlossless := rotation_atomic_lossless exampleCipher "2" zeroKey activeKey_example exampleRun
    ⟨exampleVault, (), 0⟩
  cases hrotate : rotate exampleCipher "2" exampleRun ⟨exampleVault, (), 0⟩ with
  | error e t =>
    rw [hrotate] at hreturned
    cases hreturned
  | ok counts t =>
    rw [hrotate] at hreturned hlossless
    rw [of_decide_eq_true hreturned]
    exact ⟨t, rfl, hlossless.1⟩

end Example

end Results

end ConfigBackup.MasterKeyRotation
