import ConfigBackup.ExceptLoops
import ConfigBackup.Text
import Mathlib

/-!
Encryption of stored secrets. The keyring comes from environment variables: one
active key, and previous keys by version in a JSON object. The associated data of
a secret names its reference and its key version.
-/

namespace ConfigBackup.CredentialCipher

open ExceptLoops Text

/-- The exceptions of the cipher and of the command that uses it. -/
inductive Failure
  | masterKey (message : String)
  | value (message : String)
  | command (message : String)
  | database
  | other
deriving DecidableEq, Repr

/-- What `json.loads` returns, as far as a keyring tells values apart. An object is
given by its pairs, also repeated ones. -/
inductive Json
  | string (text : String)
  | object (pairs : List (String × Json))
  | other

/-- The functions of other packages. An encryption or decryption that raises has no
result, and what has been encrypted can be decrypted. -/
structure Library (γ : Type) where
  b64decode : String → Option ByteArray
  jsonLoads : String → Option Json
  aeadEncrypt : (key nonce plaintext aad : ByteArray) → Option γ
  aeadDecrypt : (key nonce : ByteArray) → γ → (aad : ByteArray) → Option ByteArray
  decrypt_encrypt : ∀ key nonce plaintext aad ciphertext,
    aeadEncrypt key nonce plaintext aad = some ciphertext →
      aeadDecrypt key nonce ciphertext aad = some plaintext

structure EncryptedPayload (γ : Type) where
  ciphertext : γ
  nonce : ByteArray
  keyVersion : String

structure DatabaseCredentialCipher (γ : Type) where
  library : Library γ
  environ : String → Option String

def masterKeyEnv : String := "NETBOX_CONFIG_BACKUP_MASTER_KEY"

def keyVersionEnv : String := "NETBOX_CONFIG_BACKUP_MASTER_KEY_VERSION"

def previousKeysEnv : String := "NETBOX_CONFIG_BACKUP_PREVIOUS_MASTER_KEYS"

def maxPreviousKeys : ℕ := 16

def maxKeyringEnvLength : ℕ := 16 * 1024

def nonceSize : ℕ := 12

/-- `KEY_VERSION_PATTERN.fullmatch`. -/
def isKeyVersion (version : String) : Bool :=
  1 ≤ version.length && version.length ≤ 50 &&
    version.toList.all (fun c => c.isAlphanum || c == '_' || c == '.' || c == '-')

def stripped (text : String) : String := String.ofList (strip isSpace text.toList)

def invalidPrevious : Failure := .masterKey "Previous master key configuration is invalid."

def aad (reference keyVersion : String) : ByteArray :=
  ("netbox-config-backup:" ++ reference ++ ":" ++ keyVersion).toUTF8

namespace DatabaseCredentialCipher

variable {γ : Type} (cipher : DatabaseCredentialCipher γ)

def decodeKey (encoded : String) : Except Failure ByteArray :=
  let padded := encoded ++ String.ofList (List.replicate ((4 - encoded.length % 4) % 4) '=')
  match cipher.library.b64decode padded with
  | none => .error (.masterKey "Encrypted credential master key is invalid.")
  | some key =>
    if key.size ≠ 32 then
      .error (.masterKey "Encrypted credential master key must decode to 32 bytes.")
    else .ok key

def activeKey : Except Failure (ByteArray × String) :=
  let encoded := stripped ((cipher.environ masterKeyEnv).getD "")
  let version := stripped ((cipher.environ keyVersionEnv).getD "1")
  if encoded = "" ∨ version = "" ∨ isKeyVersion version = false then
    .error (.masterKey "Encrypted credential master key is not configured.")
  else do
    let key ← cipher.decodeKey encoded
    pure (key, version)

def previousKey (pair : String × Json) : Except Failure (String × ByteArray) :=
  if isKeyVersion pair.1 then
    match pair.2 with
    | .string encoded => do
      let key ← cipher.decodeKey encoded
      pure (pair.1, key)
    | _ => .error invalidPrevious
  else .error invalidPrevious

/-- The previous keys by version. The hook that refuses repeated keys also runs on
nested objects, but those are no strings and refused in any case. -/
def previousKeys : Except Failure (List (String × ByteArray)) :=
  let raw := stripped ((cipher.environ previousKeysEnv).getD "")
  if raw = "" then .ok []
  else if raw.length > maxKeyringEnvLength then .error invalidPrevious
  else
    match cipher.library.jsonLoads raw with
    | some (.object pairs) =>
      if (pairs.map Prod.fst).Nodup ∧ pairs.length ≤ maxPreviousKeys then
        pairs.mapM cipher.previousKey
      else .error invalidPrevious
    | _ => .error invalidPrevious

def keyring : Except Failure (List (String × ByteArray)) := do
  let (active, activeVersion) ← cipher.activeKey
  let previous ← cipher.previousKeys
  if activeVersion ∈ previous.map Prod.fst then
    .error (.masterKey
      "The active master key version must not also be configured as previous.")
  else if ((activeVersion, active) :: previous).map Prod.snd |>.Nodup then
    .ok ((activeVersion, active) :: previous)
  else .error (.masterKey "Each master key version must use distinct key material.")

def keyForVersion (version : String) : Except Failure ByteArray := do
  let ring ← cipher.keyring
  match ring.lookup version with
  | some key => .ok key
  | none => .error (.masterKey "Credential key version is not configured.")

/-- `nonce` is the answer of the nonce factory, if it does not raise. -/
def encrypt (nonce : Option ByteArray) (reference plaintext : String) :
    Except Failure (EncryptedPayload γ) :=
  if plaintext = "" then .error (.value "Password must not be empty.")
  else do
    let (key, version) ← cipher.activeKey
    match nonce with
    | none => .error .other
    | some nonce =>
      if nonce.size ≠ nonceSize then .error (.value "Nonce factory returned an invalid nonce.")
      else
        match cipher.library.aeadEncrypt key nonce plaintext.toUTF8 (aad reference version) with
        | none => .error .other
        | some ciphertext => .ok ⟨ciphertext, nonce, version⟩

def decrypt (reference : String) (ciphertext : γ) (nonce : ByteArray) (keyVersion : String) :
    Except Failure String := do
  let key ← cipher.keyForVersion keyVersion
  match (cipher.library.aeadDecrypt key nonce ciphertext (aad reference keyVersion)).bind
    String.fromUTF8? with
  | some plaintext => .ok plaintext
  | none => .error (.masterKey "Credential decryption failed.")

/-- The cipher of an installation that knows no previous keys. -/
def activeOnly : DatabaseCredentialCipher γ :=
  { cipher with
    environ := fun name => if name = previousKeysEnv then none else cipher.environ name }

variable {cipher} {key : ByteArray} {activeVersion : String}

@[simp] theorem activeKey_activeOnly : cipher.activeOnly.activeKey = cipher.activeKey := rfl

theorem keyring_eq_ok {ring : List (String × ByteArray)}
    (hactive : cipher.activeKey = .ok (key, activeVersion)) (h : cipher.keyring = .ok ring) :
    ring.lookup activeVersion = some key := by
  obtain ⟨pair, hpair, h⟩ := bind_eq_ok.mp h
  rw [hactive] at hpair
  cases hpair
  obtain ⟨previous, _, h⟩ := bind_eq_ok.mp h
  split at h
  · cases h
  · split at h
    · cases h
      exact List.lookup_cons_self
    · cases h

theorem keyForVersion_eq_ok {version : String} (h : cipher.keyForVersion version = .ok key) :
    ∃ ring, cipher.keyring = .ok ring ∧ ring.lookup version = some key := by
  obtain ⟨ring, hring, h⟩ := bind_eq_ok.mp h
  refine ⟨ring, hring, ?_⟩
  cases hlookup : ring.lookup version with
  | none => simp [hlookup] at h
  | some found =>
    rw [hlookup] at h
    exact congrArg some (Except.ok.inj h)

/-- Without previous keys the keyring holds the active key alone. -/
theorem keyForVersion_activeOnly (hactive : cipher.activeKey = .ok (key, activeVersion)) :
    cipher.activeOnly.keyForVersion activeVersion = .ok key := by
  have hprevious : cipher.activeOnly.previousKeys = .ok [] := by
    unfold previousKeys
    have hunset : cipher.activeOnly.environ previousKeysEnv = none := by
      show (if previousKeysEnv = previousKeysEnv then none
        else cipher.environ previousKeysEnv) = none
      exact if_pos rfl
    have hempty : stripped "" = "" := by decide
    simp only [hunset, Option.getD_none, hempty, if_true]
  have hring : cipher.activeOnly.keyring = .ok [(activeVersion, key)] := by
    unfold keyring
    rw [activeKey_activeOnly, hactive, hprevious]
    simp [bind, Except.bind]
  unfold keyForVersion
  rw [hring]
  simp [bind, Except.bind]

theorem decrypt_eq_ok {reference keyVersion plaintext : String} {ciphertext : γ}
    {nonce : ByteArray} :
    cipher.decrypt reference ciphertext nonce keyVersion = .ok plaintext ↔
      ∃ key, cipher.keyForVersion keyVersion = .ok key ∧
        (cipher.library.aeadDecrypt key nonce ciphertext (aad reference keyVersion)).bind
          String.fromUTF8? = some plaintext := by
  unfold decrypt
  rw [bind_eq_ok]
  constructor
  · rintro ⟨key, hkey, h⟩
    refine ⟨key, hkey, ?_⟩
    split at h
    · rename_i decrypted hdecrypted
      rw [hdecrypted, Except.ok.inj h]
    · cases h
  · rintro ⟨key, hkey, h⟩
    exact ⟨key, hkey, by rw [h]⟩

/-- What decrypts under the active version does so without the previous keys. -/
theorem decrypt_activeOnly {reference plaintext : String} {ciphertext : γ} {nonce : ByteArray}
    (hactive : cipher.activeKey = .ok (key, activeVersion))
    (h : cipher.decrypt reference ciphertext nonce activeVersion = .ok plaintext) :
    cipher.activeOnly.decrypt reference ciphertext nonce activeVersion = .ok plaintext := by
  obtain ⟨found, hfound, hplain⟩ := decrypt_eq_ok.mp h
  obtain ⟨ring, hring, hlookup⟩ := keyForVersion_eq_ok hfound
  rw [keyring_eq_ok hactive hring, Option.some.injEq] at hlookup
  subst found
  exact decrypt_eq_ok.mpr ⟨key, keyForVersion_activeOnly hactive, hplain⟩

theorem fromUTF8?_toUTF8 (text : String) : String.fromUTF8? text.toUTF8 = some text := by
  unfold String.fromUTF8?
  exact dif_pos text.isValidUTF8

/-- A new payload carries the active version and decrypts with the active key. -/
theorem decrypt_encrypt {reference plaintext : String} {nonce : Option ByteArray}
    {payload : EncryptedPayload γ} (hactive : cipher.activeKey = .ok (key, activeVersion))
    (h : cipher.encrypt nonce reference plaintext = .ok payload) :
    payload.keyVersion = activeVersion ∧ cipher.activeOnly.decrypt reference payload.ciphertext
      payload.nonce payload.keyVersion = .ok plaintext := by
  unfold encrypt at h
  split at h
  · cases h
  · rw [hactive] at h
    simp only [bind, Except.bind] at h
    cases nonce with
    | none => cases h
    | some nonce =>
      dsimp only at h
      split at h
      · cases h
      · split at h
        · cases h
        · rename_i ciphertext hciphertext
          cases h
          refine ⟨rfl, decrypt_eq_ok.mpr ⟨key, keyForVersion_activeOnly hactive, ?_⟩⟩
          show (cipher.library.aeadDecrypt key nonce ciphertext (aad reference activeVersion)).bind
            String.fromUTF8? = some plaintext
          rw [cipher.library.decrypt_encrypt _ _ _ _ _ hciphertext]
          exact fromUTF8?_toUTF8 plaintext

end DatabaseCredentialCipher

end ConfigBackup.CredentialCipher
