import TinyOidc.User.Schema

/-! Secrets at rest (`src/crypto/secretbox.ts`): a header with the version of the master key, a
nonce, and the ciphertext. The cipher is AES-256-GCM under the key of a version; what is used of it
is that it decrypts what it has encrypted. -/
namespace TinyOidc.Crypto
open TinyOidc.User (Bytes)

def nonceLength : ℕ := 12

def tagLength : ℕ := 16

def headerLength : ℕ := 2

abbrev Nonce := { nonce : Bytes // nonce.length = nonceLength }

/-- The cipher under the key of a version: nonce, additional data, text. -/
structure Cipher where
  encrypt : UInt8 → Bytes → Bytes → Bytes → Bytes
  decrypt : UInt8 → Bytes → Bytes → Bytes → Option Bytes
  decrypt_encrypt : ∀ version nonce header plaintext,
    decrypt version nonce header (encrypt version nonce header plaintext) = some plaintext
  length_encrypt : ∀ version nonce header plaintext,
    (encrypt version nonce header plaintext).length = plaintext.length + tagLength

/-- The master keys in use; the active one is among them. -/
structure DerivedKeys where
  versions : List UInt8
  active : UInt8
  active_mem : active ∈ versions

def format : UInt8 := 1

def headerOf (version : UInt8) : Bytes := [format, version]

/-- The version a blob is sealed under, `none` for a malformed blob. -/
def sealedUnderVersion (blob : Bytes) : Option UInt8 :=
  if blob.length < headerLength + nonceLength + tagLength || blob[0]? != some format then none
  else blob[1]?

def sealSecret (cipher : Cipher) (keys : DerivedKeys) (nonce : Nonce) (plaintext : Bytes) : Bytes :=
  headerOf keys.active ++ (nonce.val ++
    cipher.encrypt keys.active nonce.val (headerOf keys.active) plaintext)

/-- `none` when the blob is malformed or tampered with, or its key is no longer in use. -/
def openSecret (cipher : Cipher) (keys : DerivedKeys) (blob : Bytes) : Option Bytes :=
  match sealedUnderVersion blob with
  | none => none
  | some version =>
    if version ∈ keys.versions then
      cipher.decrypt version ((blob.drop headerLength).take nonceLength) (blob.take headerLength)
        (blob.drop (headerLength + nonceLength))
    else none

section Sealed
variable (cipher : Cipher) (keys : DerivedKeys) (nonce : Nonce) (plaintext : Bytes)

theorem length_sealSecret : (sealSecret cipher keys nonce plaintext).length =
    headerLength + nonceLength + (plaintext.length + tagLength) := by
  rw [sealSecret, List.length_append, List.length_append, cipher.length_encrypt, nonce.property,
    ← Nat.add_assoc]
  rfl

theorem sealedUnderVersion_sealSecret :
    sealedUnderVersion (sealSecret cipher keys nonce plaintext) = some keys.active := by
  have hlong : ¬ (sealSecret cipher keys nonce plaintext).length <
      headerLength + nonceLength + tagLength := by
    rw [length_sealSecret]
    omega
  have hformat : (sealSecret cipher keys nonce plaintext)[0]? = some format := rfl
  have hversion : (sealSecret cipher keys nonce plaintext)[1]? = some keys.active := rfl
  rw [sealedUnderVersion, hformat, hversion]
  simp [hlong]

/-- What has been sealed opens. -/
theorem openSecret_sealSecret :
    openSecret cipher keys (sealSecret cipher keys nonce plaintext) = some plaintext := by
  obtain ⟨nonce, hnonce⟩ := nonce
  have hheader : (sealSecret cipher keys ⟨nonce, hnonce⟩ plaintext).take headerLength =
      headerOf keys.active := rfl
  have hbody : (sealSecret cipher keys ⟨nonce, hnonce⟩ plaintext).drop headerLength =
      nonce ++ cipher.encrypt keys.active nonce (headerOf keys.active) plaintext := rfl
  simp only [openSecret, sealedUnderVersion_sealSecret, keys.active_mem, if_true]
  rw [hheader, ← List.drop_drop, hbody, List.take_left' hnonce, List.drop_left' hnonce]
  exact cipher.decrypt_encrypt _ _ _ _

end Sealed

end TinyOidc.Crypto
