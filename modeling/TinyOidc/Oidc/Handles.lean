import TinyOidc.Crypto.Envelope

/-! The handles the endpoints mint and open (`src/oidc/handles.ts`): what each one carries besides
its secret, and the hash of the secret that a record is looked up by. -/
namespace TinyOidc.Oidc
open TinyOidc.User (Bytes)
open TinyOidc.Util TinyOidc.Crypto

structure SessionRef where
  uid : String
  sid : String
  secretHash : Bytes
  deriving DecidableEq

structure CodeRef where
  uid : String
  secretHash : Bytes
  deriving DecidableEq

structure RefreshRef where
  uid : String
  familyId : String
  secretHash : Bytes
  deriving DecidableEq

structure InvitationRef where
  invitationId : String
  secretHash : Bytes
  deriving DecidableEq

structure BindingRef where
  interactionId : String
  secretHash : Bytes
  deriving DecidableEq

def uuidBytes (uuid : String) : Except Thrown Bytes :=
  match uuidToBytes uuid with
  | none => .error (.rangeError "not a UUID")
  | some bytes => .ok bytes

/-- The 32 raw bytes of an interaction id. -/
def ixidBytes (interactionId : String) : Except Thrown Bytes :=
  match decodeBase64Url interactionId with
  | .error e => .error e
  | .ok none => .error (.rangeError "not an interaction id")
  | .ok (some ixid) =>
    if ixid.length ≠ 32 then .error (.rangeError "not an interaction id") else .ok ixid

/-- A sealing, with the encryption it has made. -/
abbrev Sealed := Except Thrown (Aead.Sealing UInt8 Bytes Bytes Bytes × String)

section Handles
variable (gcm : Gcm) (keys : DerivedKeys)

def sealSessionHandle (nonce : Nonce) (uid sid : String) (secret : Bytes) : Sealed := do
  let uid ← uuidBytes uid
  let sid ← uuidBytes sid
  sealHandle gcm keys nonce .session [("uid", uid), ("sid", sid), ("secret", secret)]

def sealCodeHandle (nonce : Nonce) (uid : String) (secret : Bytes) : Sealed := do
  let uid ← uuidBytes uid
  sealHandle gcm keys nonce .code [("uid", uid), ("secret", secret)]

def sealRefreshHandle (nonce : Nonce) (uid familyId : String) (secret : Bytes) : Sealed := do
  let uid ← uuidBytes uid
  let family ← uuidBytes familyId
  sealHandle gcm keys nonce .refresh [("uid", uid), ("family", family), ("secret", secret)]

def sealInvitationHandle (nonce : Nonce) (invitationId : String) (secret : Bytes) : Sealed := do
  let invid ← uuidBytes invitationId
  sealHandle gcm keys nonce .invitation [("invid", invid), ("secret", secret)]

def sealFederationHandle (nonce : Nonce) (interactionId : String) (secret : Bytes) : Sealed := do
  let ixid ← ixidBytes interactionId
  sealHandle gcm keys nonce .federation [("ixid", ixid), ("secret", secret)]

def sealBindingHandle (nonce : Nonce) (interactionId : String) (secret : Bytes) : Sealed := do
  let ixid ← ixidBytes interactionId
  sealHandle gcm keys nonce .interaction [("ixid", ixid), ("secret", secret)]

variable (sha256 : Bytes → Bytes) (made : Made)

/-- Opens a handle and reads its fields; `none` when it does not open. -/
def openFields {ref : Type} (type : HandleType) (read : HandleFields → Except Thrown ref)
    (handle : String) : Except Thrown (Option ref) := do
  match ← openHandle gcm made keys type handle with
  | none => return none
  | some fields => return some (← read fields)

def openSessionHandle : String → Except Thrown (Option SessionRef) :=
  openFields gcm keys made .session fun fields => do
    let uid ← bytesToUuid (field fields "uid")
    let sid ← bytesToUuid (field fields "sid")
    return ⟨uid, sid, sha256 (field fields "secret")⟩

def openCodeHandle : String → Except Thrown (Option CodeRef) :=
  openFields gcm keys made .code fun fields => do
    let uid ← bytesToUuid (field fields "uid")
    return ⟨uid, sha256 (field fields "secret")⟩

def openRefreshHandle : String → Except Thrown (Option RefreshRef) :=
  openFields gcm keys made .refresh fun fields => do
    let uid ← bytesToUuid (field fields "uid")
    let familyId ← bytesToUuid (field fields "family")
    return ⟨uid, familyId, sha256 (field fields "secret")⟩

def openInvitationHandle : String → Except Thrown (Option InvitationRef) :=
  openFields gcm keys made .invitation fun fields => do
    let invitationId ← bytesToUuid (field fields "invid")
    return ⟨invitationId, sha256 (field fields "secret")⟩

def openFederationHandle : String → Except Thrown (Option BindingRef) :=
  openFields gcm keys made .federation fun fields =>
    return ⟨encodeBase64Url (field fields "ixid"), sha256 (field fields "secret")⟩

def openBindingHandle : String → Except Thrown (Option BindingRef) :=
  openFields gcm keys made .interaction fun fields =>
    return ⟨encodeBase64Url (field fields "ixid"), sha256 (field fields "secret")⟩

end Handles

/-! ### Ids -/

/-- The bytes of an id that is sealed are the id's own. -/
theorem uuidBytes_ok {uuid : String} {bytes : Bytes} (h : uuidBytes uuid = .ok bytes) :
    bytes.length = 16 ∧ bytesToUuid bytes = .ok uuid := by
  unfold uuidBytes at h
  by_cases huuid : isUuid uuid = true
  · obtain ⟨bytes', hbytes, hlength, hback⟩ := bytesToUuid_uuidToBytes huuid
    rw [hbytes] at h
    cases h
    exact ⟨hlength, hback⟩
  · have hnone : uuidToBytes uuid = none := if_neg huuid
    rw [hnone] at h
    cases h

theorem ixidBytes_ok {interactionId : String} {bytes : Bytes}
    (h : ixidBytes interactionId = .ok bytes) :
    bytes.length = 32 ∧ encodeBase64Url bytes = interactionId := by
  unfold ixidBytes at h
  split at h
  · cases h
  · cases h
  next ixid hdecoded =>
    rcases ite_eq_iff.mp h with ⟨-, h⟩ | ⟨hlength, h⟩
    · cases h
    · cases h
      exact ⟨not_not.mp hlength, (decodeBase64Url_eq_some.mp hdecoded).symm⟩

theorem uuidBytes_of_isUuid {uuid : String} (h : isUuid uuid = true) :
    ∃ bytes, uuidBytes uuid = .ok bytes ∧ bytes.length = 16 := by
  obtain ⟨bytes, hbytes, hlength, -⟩ := bytesToUuid_uuidToBytes h
  have hok : uuidBytes uuid = .ok bytes := by
    unfold uuidBytes
    rw [hbytes]
  exact ⟨bytes, hok, hlength⟩

theorem ixidBytes_encode {ixid : Bytes} (h : ixid.length = 32) :
    ixidBytes (encodeBase64Url ixid) = .ok ixid := by
  unfold ixidBytes
  rw [decodeBase64Url_eq_some.mpr rfl]
  exact if_neg (not_not.mpr h)

section Opening
variable {gcm : Gcm} {keys keys' : DerivedKeys} {made : Made} {ref : Type} {type : HandleType}
  {read : HandleFields → Except Thrown ref}

theorem openFields_sealed {fields : HandleFields} {handle : String}
    (h : IsSealed gcm made keys type fields handle) {r : ref} (hread : read fields = .ok r) :
    openFields gcm keys made type read handle = .ok (some r) := by
  unfold openFields
  rw [openHandle_eq_some.mpr h]
  show (do return some (← read fields) : Except Thrown (Option ref)) = .ok (some r)
  rw [hread]
  rfl

/-- What was sealed under a version still in the key set opens, to what is read of the fields. -/
theorem openFields_of_seal {nonce : Nonce} {fields : HandleFields}
    {sealing : Aead.Sealing UInt8 Bytes Bytes Bytes} {handle : String}
    (hnames : fields.map (·.1) = (handleSpec type).fields.map (·.1))
    (h : sealHandle gcm keys nonce type fields = .ok (sealing, handle)) (hmade : sealing ∈ made)
    (hactive : keys.active ∈ keys'.versions) {r : ref} (hread : read fields = .ok r) :
    openFields gcm keys' made type read handle = .ok (some r) := by
  obtain ⟨hdeclared, rfl, rfl⟩ := sealHandle_ok hnames h
  exact openFields_sealed ⟨hdeclared, keys.active, hactive, nonce, hmade, rfl⟩ hread

end Opening

/-! ### The pairs -/

/-- What is sealed opens, under any keys that still have the version it was sealed under, to the
reference. -/
def OpensTo {ref : Type} (keys : DerivedKeys) (sealWith : Nonce → Sealed)
    (openWith : DerivedKeys → Made → String → Except Thrown (Option ref)) (r : ref) : Prop :=
  ∀ (nonce : Nonce) (sealing : Aead.Sealing UInt8 Bytes Bytes Bytes) (handle : String)
    (keys' : DerivedKeys) (made : Made), sealWith nonce = .ok (sealing, handle) →
    sealing ∈ made → keys.active ∈ keys'.versions → openWith keys' made handle = .ok (some r)

/-- A sealing does not throw, and what it makes opens to the reference. -/
def Seals {ref : Type} (keys : DerivedKeys) (sealWith : Nonce → Sealed)
    (openWith : DerivedKeys → Made → String → Except Thrown (Option ref)) (r : ref) : Prop :=
  (∀ nonce, ∃ made, sealWith nonce = .ok made) ∧ OpensTo keys sealWith openWith r

theorem bind_ok {α β : Type} {x : Except Thrown α} {f : α → Except Thrown β} {b : β}
    (h : x >>= f = .ok b) : ∃ a, x = .ok a ∧ f a = .ok b := by
  cases x with
  | error e => cases h
  | ok a => exact ⟨a, rfl, h⟩

section Pairs
variable (gcm : Gcm) (sha256 : Bytes → Bytes) (keys : DerivedKeys)

theorem session_opensTo (uid sid : String) (secret : Bytes) :
    OpensTo keys (sealSessionHandle gcm keys · uid sid secret)
      (openSessionHandle gcm · sha256 ·) ⟨uid, sid, sha256 secret⟩ := by
  intro nonce sealing handle keys' made hseal hmade hactive
  obtain ⟨uidBytes, huid, hseal⟩ := bind_ok hseal
  obtain ⟨sidBytes, hsid, hseal⟩ := bind_ok hseal
  apply openFields_of_seal (by rfl) hseal hmade hactive
  show (do
    let uid ← bytesToUuid uidBytes
    let sid ← bytesToUuid sidBytes
    return (⟨uid, sid, sha256 secret⟩ : SessionRef)) = _
  rw [(uuidBytes_ok huid).2, (uuidBytes_ok hsid).2]
  rfl

theorem code_opensTo (uid : String) (secret : Bytes) :
    OpensTo keys (sealCodeHandle gcm keys · uid secret) (openCodeHandle gcm · sha256 ·)
      ⟨uid, sha256 secret⟩ := by
  intro nonce sealing handle keys' made hseal hmade hactive
  obtain ⟨uidBytes, huid, hseal⟩ := bind_ok hseal
  apply openFields_of_seal (by rfl) hseal hmade hactive
  show (do
    let uid ← bytesToUuid uidBytes
    return (⟨uid, sha256 secret⟩ : CodeRef)) = _
  rw [(uuidBytes_ok huid).2]
  rfl

theorem refresh_opensTo (uid familyId : String) (secret : Bytes) :
    OpensTo keys (sealRefreshHandle gcm keys · uid familyId secret)
      (openRefreshHandle gcm · sha256 ·) ⟨uid, familyId, sha256 secret⟩ := by
  intro nonce sealing handle keys' made hseal hmade hactive
  obtain ⟨uidBytes, huid, hseal⟩ := bind_ok hseal
  obtain ⟨familyBytes, hfamily, hseal⟩ := bind_ok hseal
  apply openFields_of_seal (by rfl) hseal hmade hactive
  show (do
    let uid ← bytesToUuid uidBytes
    let familyId ← bytesToUuid familyBytes
    return (⟨uid, familyId, sha256 secret⟩ : RefreshRef)) = _
  rw [(uuidBytes_ok huid).2, (uuidBytes_ok hfamily).2]
  rfl

theorem invitation_opensTo (invitationId : String) (secret : Bytes) :
    OpensTo keys (sealInvitationHandle gcm keys · invitationId secret)
      (openInvitationHandle gcm · sha256 ·) ⟨invitationId, sha256 secret⟩ := by
  intro nonce sealing handle keys' made hseal hmade hactive
  obtain ⟨idBytes, hid, hseal⟩ := bind_ok hseal
  apply openFields_of_seal (by rfl) hseal hmade hactive
  show (do
    let invitationId ← bytesToUuid idBytes
    return (⟨invitationId, sha256 secret⟩ : InvitationRef)) = _
  rw [(uuidBytes_ok hid).2]
  rfl

theorem federation_opensTo (interactionId : String) (secret : Bytes) :
    OpensTo keys (sealFederationHandle gcm keys · interactionId secret)
      (openFederationHandle gcm · sha256 ·) ⟨interactionId, sha256 secret⟩ := by
  intro nonce sealing handle keys' made hseal hmade hactive
  obtain ⟨ixid, hixid, hseal⟩ := bind_ok hseal
  apply openFields_of_seal (by rfl) hseal hmade hactive
  show Except.ok (⟨encodeBase64Url ixid, sha256 secret⟩ : BindingRef) = _
  rw [(ixidBytes_ok hixid).2]

theorem binding_opensTo (interactionId : String) (secret : Bytes) :
    OpensTo keys (sealBindingHandle gcm keys · interactionId secret)
      (openBindingHandle gcm · sha256 ·) ⟨interactionId, sha256 secret⟩ := by
  intro nonce sealing handle keys' made hseal hmade hactive
  obtain ⟨ixid, hixid, hseal⟩ := bind_ok hseal
  apply openFields_of_seal (by rfl) hseal hmade hactive
  show Except.ok (⟨encodeBase64Url ixid, sha256 secret⟩ : BindingRef) = _
  rw [(ixidBytes_ok hixid).2]

/-! ### Sealing ids -/

variable {gcm keys} in
theorem seal_exists {type : HandleType} {fields : HandleFields} (h : Declared type fields)
    (nonce : Nonce) : ∃ made, sealHandle gcm keys nonce type fields = .ok made :=
  ⟨_, h.seal nonce⟩

variable {secret : Bytes} (hsecret : secret.length = 32)
include hsecret

theorem session_seals {uid sid : String} (huid : isUuid uid = true) (hsid : isUuid sid = true) :
    Seals keys (sealSessionHandle gcm keys · uid sid secret)
      (openSessionHandle gcm · sha256 ·) ⟨uid, sid, sha256 secret⟩ := by
  obtain ⟨uidBytes, huidBytes, huidLength⟩ := uuidBytes_of_isUuid huid
  obtain ⟨sidBytes, hsidBytes, hsidLength⟩ := uuidBytes_of_isUuid hsid
  have hdeclared : Declared .session
    [("uid", uidBytes), ("sid", sidBytes), ("secret", secret)] := by
    simp [Declared, handleSpec, huidLength, hsidLength, hsecret]
  constructor
  · intro nonce
    show ∃ made, _ = Except.ok made
    unfold sealSessionHandle
    rw [huidBytes, hsidBytes]
    exact seal_exists hdeclared nonce
  · exact session_opensTo gcm sha256 keys uid sid secret

theorem code_seals {uid : String} (huid : isUuid uid = true) :
    Seals keys (sealCodeHandle gcm keys · uid secret) (openCodeHandle gcm · sha256 ·)
      ⟨uid, sha256 secret⟩ := by
  obtain ⟨uidBytes, huidBytes, huidLength⟩ := uuidBytes_of_isUuid huid
  have hdeclared : Declared .code [("uid", uidBytes), ("secret", secret)] := by
    simp [Declared, handleSpec, huidLength, hsecret]
  constructor
  · intro nonce
    show ∃ made, _ = Except.ok made
    unfold sealCodeHandle
    rw [huidBytes]
    exact seal_exists hdeclared nonce
  · exact code_opensTo gcm sha256 keys uid secret

theorem refresh_seals {uid familyId : String} (huid : isUuid uid = true)
    (hfamily : isUuid familyId = true) :
    Seals keys (sealRefreshHandle gcm keys · uid familyId secret)
      (openRefreshHandle gcm · sha256 ·) ⟨uid, familyId, sha256 secret⟩ := by
  obtain ⟨uidBytes, huidBytes, huidLength⟩ := uuidBytes_of_isUuid huid
  obtain ⟨familyBytes, hfamilyBytes, hfamilyLength⟩ := uuidBytes_of_isUuid hfamily
  have hdeclared : Declared .refresh
      [("uid", uidBytes), ("family", familyBytes), ("secret", secret)] := by
    simp [Declared, handleSpec, huidLength, hfamilyLength, hsecret]
  constructor
  · intro nonce
    show ∃ made, _ = Except.ok made
    unfold sealRefreshHandle
    rw [huidBytes, hfamilyBytes]
    exact seal_exists hdeclared nonce
  · exact refresh_opensTo gcm sha256 keys uid familyId secret

theorem invitation_seals {invitationId : String} (hid : isUuid invitationId = true) :
    Seals keys (sealInvitationHandle gcm keys · invitationId secret)
      (openInvitationHandle gcm · sha256 ·) ⟨invitationId, sha256 secret⟩ := by
  obtain ⟨idBytes, hidBytes, hidLength⟩ := uuidBytes_of_isUuid hid
  have hdeclared : Declared .invitation [("invid", idBytes), ("secret", secret)] := by
    simp [Declared, handleSpec, hidLength, hsecret]
  constructor
  · intro nonce
    show ∃ made, _ = Except.ok made
    unfold sealInvitationHandle
    rw [hidBytes]
    exact seal_exists hdeclared nonce
  · exact invitation_opensTo gcm sha256 keys invitationId secret

theorem federation_seals {ixid : Bytes} (hixid : ixid.length = 32) :
    Seals keys (sealFederationHandle gcm keys · (encodeBase64Url ixid) secret)
      (openFederationHandle gcm · sha256 ·) ⟨encodeBase64Url ixid, sha256 secret⟩ := by
  have hdeclared : Declared .federation [("ixid", ixid), ("secret", secret)] := by
    simp [Declared, handleSpec, hixid, hsecret]
  constructor
  · intro nonce
    show ∃ made, _ = Except.ok made
    unfold sealFederationHandle
    rw [ixidBytes_encode hixid]
    exact seal_exists hdeclared nonce
  · exact federation_opensTo gcm sha256 keys (encodeBase64Url ixid) secret

theorem binding_seals {ixid : Bytes} (hixid : ixid.length = 32) :
    Seals keys (sealBindingHandle gcm keys · (encodeBase64Url ixid) secret)
      (openBindingHandle gcm · sha256 ·) ⟨encodeBase64Url ixid, sha256 secret⟩ := by
  have hdeclared : Declared .interaction [("ixid", ixid), ("secret", secret)] := by
    simp [Declared, handleSpec, hixid, hsecret]
  constructor
  · intro nonce
    show ∃ made, _ = Except.ok made
    unfold sealBindingHandle
    rw [ixidBytes_encode hixid]
    exact seal_exists hdeclared nonce
  · exact binding_opensTo gcm sha256 keys (encodeBase64Url ixid) secret

end Pairs

/-- A handle opens to the fields it was sealed with, under any keys that still have its version;
every other string is refused, and nothing throws. The typed seals take every UUID, every id of an
interaction and every secret of 32 bytes. -/
theorem handles_open_what_was_sealed (gcm : Gcm) (sha256 : Bytes → Bytes) :
    (∀ (keys keys' : DerivedKeys) (made : Made) (nonce : Nonce) (type : HandleType)
      (fields : HandleFields), Declared type fields → keys.active ∈ keys'.versions →
      ∃ sealing handle, sealHandle gcm keys nonce type fields = .ok (sealing, handle) ∧
        (sealing ∈ made → openHandle gcm made keys' type handle = .ok (some fields))) ∧
    (∀ (keys : DerivedKeys) (made : Made) (type : HandleType) (handle : String),
      (∀ (sealedBy : DerivedKeys) (nonce : Nonce) (fields : HandleFields)
        (sealing : Aead.Sealing UInt8 Bytes Bytes Bytes),
        Declared type fields → sealedBy.active ∈ keys.versions →
        sealHandle gcm sealedBy nonce type fields = .ok (sealing, handle) → sealing ∉ made) →
      openHandle gcm made keys type handle = .ok none) ∧
    (∀ (sealedBy keys : DerivedKeys) (made : Made) (nonce : Nonce) (type type' : HandleType)
      (fields : HandleFields) (sealing : Aead.Sealing UInt8 Bytes Bytes Bytes) (handle : String),
      Declared type fields →
      sealHandle gcm sealedBy nonce type fields = .ok (sealing, handle) →
      (type' ≠ type → openHandle gcm made keys type' handle = .ok none) ∧
      (sealing ∈ made → (made.map (·.nonce)).Nodup → ∀ header rest : Bytes,
        header.length = envelopeHeaderLength →
        handleOf type' (header ++ (nonce.val ++ rest)) ≠ handle →
        openHandle gcm made keys type' (handleOf type' (header ++ (nonce.val ++ rest))) =
          .ok none)) ∧
    (∀ (keys : DerivedKeys) (uid other : String) (secret : Bytes),
      OpensTo keys (sealSessionHandle gcm keys · uid other secret)
        (openSessionHandle gcm · sha256 ·) ⟨uid, other, sha256 secret⟩ ∧
      OpensTo keys (sealCodeHandle gcm keys · uid secret)
        (openCodeHandle gcm · sha256 ·) ⟨uid, sha256 secret⟩ ∧
      OpensTo keys (sealRefreshHandle gcm keys · uid other secret)
        (openRefreshHandle gcm · sha256 ·) ⟨uid, other, sha256 secret⟩ ∧
      OpensTo keys (sealInvitationHandle gcm keys · other secret)
        (openInvitationHandle gcm · sha256 ·) ⟨other, sha256 secret⟩ ∧
      OpensTo keys (sealFederationHandle gcm keys · other secret)
        (openFederationHandle gcm · sha256 ·) ⟨other, sha256 secret⟩ ∧
      OpensTo keys (sealBindingHandle gcm keys · other secret)
        (openBindingHandle gcm · sha256 ·) ⟨other, sha256 secret⟩) ∧
    (∀ (keys : DerivedKeys) (uid other : String) (ixid secret : Bytes), isUuid uid = true →
      isUuid other = true → ixid.length = 32 → secret.length = 32 →
      Seals keys (sealSessionHandle gcm keys · uid other secret)
        (openSessionHandle gcm · sha256 ·) ⟨uid, other, sha256 secret⟩ ∧
      Seals keys (sealCodeHandle gcm keys · uid secret)
        (openCodeHandle gcm · sha256 ·) ⟨uid, sha256 secret⟩ ∧
      Seals keys (sealRefreshHandle gcm keys · uid other secret)
        (openRefreshHandle gcm · sha256 ·) ⟨uid, other, sha256 secret⟩ ∧
      Seals keys (sealInvitationHandle gcm keys · other secret)
        (openInvitationHandle gcm · sha256 ·) ⟨other, sha256 secret⟩ ∧
      Seals keys (sealFederationHandle gcm keys · (encodeBase64Url ixid) secret)
        (openFederationHandle gcm · sha256 ·) ⟨encodeBase64Url ixid, sha256 secret⟩ ∧
      Seals keys (sealBindingHandle gcm keys · (encodeBase64Url ixid) secret)
        (openBindingHandle gcm · sha256 ·) ⟨encodeBase64Url ixid, sha256 secret⟩) := by
  refine ⟨?_, ?_, ?_, ?_, ?_⟩
  · intro keys keys' made nonce type fields hdeclared hactive
    refine ⟨_, _, hdeclared.seal nonce, ?_⟩
    intro hmade
    exact openHandle_eq_some.mpr ⟨hdeclared, keys.active, hactive, nonce, hmade, rfl⟩
  · intro keys made type handle hnone
    apply openHandle_eq_none
    rintro fields ⟨hdeclared, version, hversion, nonce, hmade, rfl⟩
    let sealedBy : DerivedKeys := ⟨keys.versions, version, hversion⟩
    exact hnone sealedBy nonce fields _ hdeclared hversion (hdeclared.seal nonce) hmade
  · intro sealedBy keys made nonce type type' fields sealing handle hdeclared hseal
    rw [hdeclared.seal] at hseal
    cases hseal
    constructor
    · intro hne
      exact openHandle_of_other hne sealedBy.active nonce
    · intro hmade hnonces header rest hheader hne
      exact openHandle_of_altered hnonces hmade hheader hne
  · intro keys uid other secret
    exact ⟨session_opensTo gcm sha256 keys uid other secret,
      code_opensTo gcm sha256 keys uid secret, refresh_opensTo gcm sha256 keys uid other secret,
      invitation_opensTo gcm sha256 keys other secret,
      federation_opensTo gcm sha256 keys other secret,
      binding_opensTo gcm sha256 keys other secret⟩
  · intro keys uid other ixid secret huid hother hixid hsecret
    exact ⟨session_seals gcm sha256 keys hsecret huid hother,
      code_seals gcm sha256 keys hsecret huid,
      refresh_seals gcm sha256 keys hsecret huid hother,
      invitation_seals gcm sha256 keys hsecret hother,
      federation_seals gcm sha256 keys hsecret hixid,
      binding_seals gcm sha256 keys hsecret hixid⟩

namespace Sample

/-- A text with a tag of zeros. -/
def plainGcm : Gcm where
  encrypt _ _ _ text := text ++ List.replicate tagLength 0
  injective _ _ _ := List.append_left_injective _
  length_encrypt _ _ _ _ := by rw [List.length_append, List.length_replicate]

def sealingKeys : DerivedKeys := ⟨[1], 1, List.mem_singleton_self 1⟩

def laterKeys : DerivedKeys := ⟨[2, 1], 2, List.mem_cons_self⟩

def zeroNonce : Nonce := ⟨List.replicate nonceLength 0, List.length_replicate⟩

def sessionFields : HandleFields :=
  [("uid", List.replicate 16 1), ("sid", List.replicate 16 2), ("secret", List.replicate 32 3)]

end Sample

open Sample

theorem sessionFields_declared : Declared .session sessionFields := by decide

/-- A session handle outlives the change of the active version and is no code, another prefix does
not open, and two UUIDs are sealed. -/
theorem handles_open_what_was_sealed_sample :
    (∃ sealing handle,
      sealHandle plainGcm sealingKeys zeroNonce .session sessionFields = .ok (sealing, handle) ∧
      openHandle plainGcm [sealing] laterKeys .session handle = .ok (some sessionFields) ∧
      openHandle plainGcm [sealing] laterKeys .code handle = .ok none ∧
      openHandle plainGcm [sealing] laterKeys .session "tio_sx_AAAA" = .ok none) ∧
    Seals sealingKeys
      (sealSessionHandle plainGcm sealingKeys · "0190a1b2-c3d4-7e5f-8a6b-7c8d9e0f1a2b"
        "0190a1b2-c3d4-7e5f-8a6b-7c8d9e0f1a2c" (List.replicate 32 3))
      (openSessionHandle plainGcm · (·.take 4) ·)
      ⟨"0190a1b2-c3d4-7e5f-8a6b-7c8d9e0f1a2b", "0190a1b2-c3d4-7e5f-8a6b-7c8d9e0f1a2c",
        List.replicate 4 3⟩ := by
  obtain ⟨hopens, hrefused, hother, -, hseals⟩ :=
    handles_open_what_was_sealed plainGcm (fun bytes => bytes.take 4)
  constructor
  · obtain ⟨sealing, handle, hseal, hopen⟩ := hopens sealingKeys laterKeys
      [sealingOf 1 zeroNonce .session sessionFields] zeroNonce .session sessionFields
      sessionFields_declared (by decide)
    have hmade : sealing = sealingOf 1 zeroNonce .session sessionFields := by
      rw [sessionFields_declared.seal] at hseal
      cases hseal
      rfl
    subst hmade
    refine ⟨_, handle, hseal, hopen (List.mem_singleton_self _), ?_, ?_⟩
    · exact (hother sealingKeys laterKeys _ zeroNonce .session .code sessionFields _ handle
        sessionFields_declared hseal).1 (by decide)
    · apply hrefused
      intro sealedBy nonce fields sealing hdeclared _ hsealed _
      rw [hdeclared.seal] at hsealed
      have hchars := congrArg String.toList (Prod.mk.inj (Except.ok.inj hsealed)).2
      simp [handleText, handleOf, lead, handleSpec] at hchars
  · exact (hseals sealingKeys _ _ (List.replicate 32 0) (List.replicate 32 3) (by decide)
      (by decide) (by decide) (by decide)).1

end TinyOidc.Oidc
