import Mathlib.Algebra.Order.Ring.Nat
import TinyOidc.Crypto.SecretBox
import TinyOidc.Lib.Aead
import TinyOidc.Util.Uuid

/-! Opaque handles (`src/crypto/envelope.ts`, `src/crypto/handle-types.ts`): a prefix, and the
base64url text of a header, a nonce and the encrypted fields. Secrets at rest only need a cipher
that decrypts what it has encrypted; of handles, which clients send back, it also matters that
nothing else decrypts. -/
namespace TinyOidc.Crypto
open TinyOidc.User (Bytes)
open TinyOidc.Util

inductive HandleType where
  | session | code | refresh | interaction | federation | invitation
  deriving DecidableEq, Repr

structure HandleSpec where
  prefixText : String
  type : UInt8
  fields : List (String × ℕ)

/-- `HANDLE_TYPES`. -/
def handleSpec : HandleType → HandleSpec
  | .session => ⟨"tio_ss", 1, [("uid", 16), ("sid", 16), ("secret", 32)]⟩
  | .code => ⟨"tio_ac", 2, [("uid", 16), ("secret", 32)]⟩
  | .refresh => ⟨"tio_rt", 3, [("uid", 16), ("family", 16), ("secret", 32)]⟩
  | .interaction => ⟨"tio_ix", 4, [("ixid", 32), ("secret", 32)]⟩
  | .federation => ⟨"tio_fs", 5, [("ixid", 32), ("secret", 32)]⟩
  | .invitation => ⟨"tio_iv", 6, [("invid", 16), ("secret", 32)]⟩

def envelopeVersion : UInt8 := 1

def envelopeHeaderLength : ℕ := 3

def layout (fields : List (String × ℕ)) : ℕ := (fields.map (·.2)).sum

/-- AES-256-GCM under the envelope key of a version: the ciphertext with its tag. -/
structure Gcm extends Aead.Scheme UInt8 Bytes Bytes Bytes Bytes where
  length_encrypt : ∀ version nonce header plaintext,
    (encrypt version nonce header plaintext).length = plaintext.length + tagLength

abbrev Made := List (Aead.Sealing UInt8 Bytes Bytes Bytes)

abbrev HandleFields := List (String × Bytes)

def field (fields : HandleFields) (name : String) : Bytes := (fields.lookup name).getD []

/-! ### Sealing and opening -/

def packFields (fields : HandleFields) : List (String × ℕ) → Except Thrown Bytes
  | [] => .ok []
  | (name, length) :: rest =>
    if (field fields name).length ≠ length then
      .error (.rangeError ("handle field " ++ name ++ " must be " ++ toString length ++ " bytes"))
    else
      match packFields fields rest with
      | .error e => .error e
      | .ok packed => .ok (field fields name ++ packed)

def unpackFields : List (String × ℕ) → Bytes → HandleFields
  | [], _ => []
  | (name, length) :: rest, plaintext =>
    (name, plaintext.take length) :: unpackFields rest (plaintext.drop length)

def envelopeHeader (version : UInt8) (type : HandleType) : Bytes :=
  [envelopeVersion, version, (handleSpec type).type]

/-- The characters before the base64url text. -/
def lead (type : HandleType) : List Char := ((handleSpec type).prefixText ++ "_").toList

def handleOf (type : HandleType) (bytes : Bytes) : String :=
  String.ofList (lead type ++ (encodeBase64Url bytes).toList)

/-- Encrypts the fields under the active version. -/
def sealHandle (gcm : Gcm) (keys : DerivedKeys) (nonce : Nonce) (type : HandleType)
    (fields : HandleFields) : Except Thrown (Aead.Sealing UInt8 Bytes Bytes Bytes × String) :=
  match packFields fields (handleSpec type).fields with
  | .error e => .error e
  | .ok plaintext =>
    let header := envelopeHeader keys.active type
    .ok (⟨keys.active, nonce.val, header, plaintext⟩, handleOf type
      (header ++ (nonce.val ++ gcm.encrypt keys.active nonce.val header plaintext)))

/-- The part of `openHandle` after the header: the key version it names, and the decryption. -/
def openEnvelope (gcm : Gcm) (made : Made) (keys : DerivedKeys) (type : HandleType)
    (bytes : Bytes) : Option HandleFields :=
  match bytes[1]? with
  | none => none
  | some version =>
    if version ∈ keys.versions then
      (gcm.decrypt made version ((bytes.drop envelopeHeaderLength).take nonceLength)
        (bytes.take envelopeHeaderLength)
        (bytes.drop (envelopeHeaderLength + nonceLength))).map
          (unpackFields (handleSpec type).fields)
    else none

/-- Decrypts a handle of the expected type; any structural or cryptographic failure gives
`none`. -/
def openHandle (gcm : Gcm) (made : Made) (keys : DerivedKeys) (type : HandleType)
    (handle : String) : Except Thrown (Option HandleFields) :=
  if !(lead type).isPrefixOf handle.toList then .ok none
  else
    match decodeBase64Url (String.ofList (handle.toList.drop (lead type).length)) with
    | .error e => .error e
    | .ok none => .ok none
    | .ok (some bytes) =>
      if bytes.length ≠ envelopeHeaderLength + nonceLength + layout (handleSpec type).fields +
          tagLength then .ok none
      else if bytes[0]? ≠ some envelopeVersion ∨ bytes[2]? ≠ some (handleSpec type).type then
        .ok none
      else .ok (openEnvelope gcm made keys type bytes)

/-! ### Fields of the declared lengths -/

def Declared (type : HandleType) (fields : HandleFields) : Prop :=
  fields.map (fun f => (f.1, f.2.length)) = (handleSpec type).fields

instance (type : HandleType) (fields : HandleFields) : Decidable (Declared type fields) :=
  inferInstanceAs (Decidable (_ = _))

def plaintextOf (fields : HandleFields) : Bytes := fields.flatMap (·.2)

theorem names_nodup (type : HandleType) : ((handleSpec type).fields.map (·.1)).Nodup := by
  cases type <;> decide

theorem field_of_mem {fields : HandleFields} (hnodup : (fields.map (·.1)).Nodup)
    {f : String × Bytes} (hf : f ∈ fields) : field fields f.1 = f.2 := by
  unfold field
  induction fields with
  | nil => cases hf
  | cons g rest ih =>
    obtain ⟨hg, hrest⟩ := List.nodup_cons.mp hnodup
    rw [List.lookup_cons]
    rcases List.mem_cons.mp hf with rfl | hf
    · simp
    · have hne : f.1 ≠ g.1 := fun h => hg (List.mem_map.mpr ⟨f, hf, h⟩)
      have hbeq : (f.1 == g.1) = false := by simpa using hne
      rw [hbeq]
      exact ih hrest hf

theorem packFields_part {fields part : HandleFields}
    (hpart : ∀ f ∈ part, field fields f.1 = f.2) :
    packFields fields (part.map fun f => (f.1, f.2.length)) = .ok (plaintextOf part) := by
  induction part with
  | nil => rfl
  | cons f rest ih =>
    have hf := hpart f List.mem_cons_self
    have hrest := ih fun g hg => hpart g (List.mem_cons_of_mem _ hg)
    rw [List.map_cons, packFields, hf, if_neg (by simp), hrest]
    rfl

theorem Declared.pack {type : HandleType} {fields : HandleFields} (h : Declared type fields) :
    packFields fields (handleSpec type).fields = .ok (plaintextOf fields) := by
  have hnodup : (fields.map (·.1)).Nodup := by
    have hnames := names_nodup type
    rw [← h, List.map_map] at hnames
    exact hnames
  rw [← h]
  exact packFields_part fun f hf => field_of_mem hnodup hf

theorem Declared.length {type : HandleType} {fields : HandleFields} (h : Declared type fields) :
    (plaintextOf fields).length = layout (handleSpec type).fields := by
  rw [layout, ← h, List.map_map, plaintextOf, List.length_flatMap]
  rfl

theorem unpackFields_plaintextOf (fields : HandleFields) :
    unpackFields (fields.map fun f => (f.1, f.2.length)) (plaintextOf fields) = fields := by
  induction fields with
  | nil => rfl
  | cons f rest ih =>
    have htake : (f.2 ++ plaintextOf rest).take f.2.length = f.2 := List.take_left
    have hdrop : (f.2 ++ plaintextOf rest).drop f.2.length = plaintextOf rest := List.drop_left
    show (f.1, (f.2 ++ plaintextOf rest).take f.2.length) ::
      unpackFields _ ((f.2 ++ plaintextOf rest).drop f.2.length) = f :: rest
    rw [htake, hdrop, ih]

theorem Declared.unpack {type : HandleType} {fields : HandleFields} (h : Declared type fields) :
    unpackFields (handleSpec type).fields (plaintextOf fields) = fields := by
  rw [← h]
  exact unpackFields_plaintextOf fields

theorem length_of_packFields {fields : HandleFields} {specs : List (String × ℕ)} {packed : Bytes}
    (h : packFields fields specs = .ok packed) :
    ∀ spec ∈ specs, (field fields spec.1).length = spec.2 := by
  induction specs generalizing packed with
  | nil => simp
  | cons spec rest ih =>
    unfold packFields at h
    rcases ite_eq_iff.mp h with ⟨-, h⟩ | ⟨hlength, h⟩
    · cases h
    split at h
    · cases h
    next packed' hrest =>
      intro other hother
      rcases List.mem_cons.mp hother with rfl | hother
      · exact not_not.mp hlength
      · exact ih hrest other hother

/-- Fields of the names of a type that are packed are of the declared lengths. -/
theorem declared_of_pack {type : HandleType} {fields : HandleFields} {packed : Bytes}
    (hnames : fields.map (·.1) = (handleSpec type).fields.map (·.1))
    (h : packFields fields (handleSpec type).fields = .ok packed) : Declared type fields := by
  have hnodup : (fields.map (·.1)).Nodup := hnames ▸ names_nodup type
  have hlengths := length_of_packFields h
  apply List.ext_getElem
  · have hcount := congrArg List.length hnames
    simpa using hcount
  · intro i hi hi'
    have hlt : i < List.length fields := by simpa using hi
    have hname : fields[i].1 = (handleSpec type).fields[i].1 := by
      have hget := congrArg (fun names => names[i]?) hnames
      simpa [List.getElem?_map, hlt, hi'] using hget
    have hfield := field_of_mem hnodup (List.getElem_mem hlt)
    have hlength := hlengths _ (List.getElem_mem hi')
    rw [← hname, hfield] at hlength
    rw [List.getElem_map]
    exact Prod.ext hname hlength

/-- A plaintext of the length of a layout is that of its fields. -/
theorem unpackFields_spec {specs : List (String × ℕ)} {plaintext : Bytes}
    (h : plaintext.length = layout specs) :
    (unpackFields specs plaintext).map (fun f => (f.1, f.2.length)) = specs ∧
      plaintextOf (unpackFields specs plaintext) = plaintext := by
  induction specs generalizing plaintext with
  | nil =>
    have hnil : plaintext = [] := List.length_eq_zero_iff.mp h
    subst hnil
    exact ⟨rfl, rfl⟩
  | cons spec rest ih =>
    have hsum : plaintext.length = spec.2 + layout rest := by
      rw [h, layout, List.map_cons, List.sum_cons]
      rfl
    have hdrop : (plaintext.drop spec.2).length = layout rest := by
      rw [List.length_drop]
      omega
    have htake : (plaintext.take spec.2).length = spec.2 := by
      rw [List.length_take]
      omega
    obtain ⟨hspecs, htext⟩ := ih hdrop
    constructor
    · simp only [unpackFields, List.map_cons, htake, hspecs]
    · show plaintext.take spec.2 ++ plaintextOf (unpackFields rest (plaintext.drop spec.2)) = _
      rw [htext, List.take_append_drop]

/-! ### What opens -/

def sealingOf (version : UInt8) (nonce : Nonce) (type : HandleType) (fields : HandleFields) :
    Aead.Sealing UInt8 Bytes Bytes Bytes :=
  ⟨version, nonce.val, envelopeHeader version type, plaintextOf fields⟩

def handleText (gcm : Gcm) (version : UInt8) (nonce : Nonce) (type : HandleType)
    (fields : HandleFields) : String :=
  handleOf type (envelopeHeader version type ++ (nonce.val ++
    gcm.encrypt version nonce.val (envelopeHeader version type) (plaintextOf fields)))

/-- The handle of an encryption that was made, under a version of the key set. -/
def IsSealed (gcm : Gcm) (made : Made) (keys : DerivedKeys) (type : HandleType)
    (fields : HandleFields) (handle : String) : Prop :=
  Declared type fields ∧ ∃ version ∈ keys.versions, ∃ nonce : Nonce,
    sealingOf version nonce type fields ∈ made ∧ handle = handleText gcm version nonce type fields

section Opening
variable {gcm : Gcm} {made : Made} {keys : DerivedKeys} {type : HandleType} {fields : HandleFields}

theorem Declared.seal (h : Declared type fields) (nonce : Nonce) :
    sealHandle gcm keys nonce type fields =
      .ok (sealingOf keys.active nonce type fields,
        handleText gcm keys.active nonce type fields) := by
  unfold sealHandle
  rw [h.pack]
  rfl

/-- What is sealed has the declared lengths, and its handle. -/
theorem sealHandle_ok {nonce : Nonce} {made' : Aead.Sealing UInt8 Bytes Bytes Bytes}
    {handle : String} (hnames : fields.map (·.1) = (handleSpec type).fields.map (·.1))
    (h : sealHandle gcm keys nonce type fields = .ok (made', handle)) :
    Declared type fields ∧ made' = sealingOf keys.active nonce type fields ∧
      handle = handleText gcm keys.active nonce type fields := by
  have hdeclared : Declared type fields := by
    cases hpack : packFields fields (handleSpec type).fields with
    | error e =>
      rw [sealHandle, hpack] at h
      cases h
    | ok packed => exact declared_of_pack hnames hpack
  rw [hdeclared.seal] at h
  cases h
  exact ⟨hdeclared, rfl, rfl⟩

theorem toList_handleOf (type : HandleType) (bytes : Bytes) :
    (handleOf type bytes).toList = lead type ++ (encodeBase64Url bytes).toList :=
  String.toList_ofList

/-- A handle with the lead of the type is decoded to the bytes it is the text of. -/
theorem openHandle_handleOf (bytes : Bytes) :
    openHandle gcm made keys type (handleOf type bytes) =
      if bytes.length ≠ envelopeHeaderLength + nonceLength + layout (handleSpec type).fields +
          tagLength then .ok none
      else if bytes[0]? ≠ some envelopeVersion ∨ bytes[2]? ≠ some (handleSpec type).type then
        .ok none
      else .ok (openEnvelope gcm made keys type bytes) := by
  have hlead : (lead type).isPrefixOf (handleOf type bytes).toList = true := by
    rw [toList_handleOf]
    exact List.isPrefixOf_iff_prefix.mpr (List.prefix_append _ _)
  have hrest : String.ofList ((handleOf type bytes).toList.drop (lead type).length) =
      encodeBase64Url bytes := by
    rw [toList_handleOf, List.drop_left, String.ofList_toList]
  unfold openHandle
  rw [hlead, hrest, decodeBase64Url_eq_some.mpr rfl]
  rfl

/-- A handle that is not the text of any bytes under the type's lead is refused. -/
theorem openHandle_of_not_handleOf {handle : String}
    (h : ∀ bytes, handle ≠ handleOf type bytes) :
    openHandle gcm made keys type handle = .ok none := by
  unfold openHandle
  by_cases hlead : (lead type).isPrefixOf handle.toList = true
  · obtain ⟨rest, hrest⟩ := List.isPrefixOf_iff_prefix.mp hlead
    obtain ⟨decoded, hdecoded⟩ := decodeBase64Url_ok
      (String.ofList (handle.toList.drop (lead type).length))
    rw [hlead, hdecoded]
    cases decoded with
    | none => rfl
    | some bytes =>
      have htext := decodeBase64Url_eq_some.mp hdecoded
      apply absurd _ (h bytes)
      rw [handleOf, ← htext, String.toList_ofList, ← hrest, List.drop_left, hrest,
        String.ofList_toList]
  · simp [hlead]

/-- No handle makes the opening throw. -/
theorem openHandle_ok (handle : String) :
    ∃ result, openHandle gcm made keys type handle = .ok result := by
  by_cases h : ∃ bytes, handle = handleOf type bytes
  · obtain ⟨bytes, rfl⟩ := h
    rw [openHandle_handleOf]
    split
    · exact ⟨_, rfl⟩
    · split
      · exact ⟨_, rfl⟩
      · exact ⟨_, rfl⟩
  · exact ⟨none, openHandle_of_not_handleOf fun bytes heq => h ⟨bytes, heq⟩⟩

/-- Bytes of the right length with the type's header, by their parts. -/
theorem openEnvelope_eq_some {header nonce cipher : Bytes} {version : UInt8}
    (hheader : header = envelopeHeader version type) (hnonce : nonce.length = nonceLength)
    (hcipher : cipher.length = layout (handleSpec type).fields + tagLength) :
    openEnvelope gcm made keys type (header ++ (nonce ++ cipher)) = some fields ↔
      Declared type fields ∧ version ∈ keys.versions ∧
        ⟨version, nonce, header, plaintextOf fields⟩ ∈ made ∧
        cipher = gcm.encrypt version nonce header (plaintextOf fields) := by
  have hlength : header.length = envelopeHeaderLength := by rw [hheader]; rfl
  have hversion : (header ++ (nonce ++ cipher))[1]? = some version := by rw [hheader]; rfl
  have htake : (header ++ (nonce ++ cipher)).take envelopeHeaderLength = header :=
    List.take_left' hlength
  have hdrop : (header ++ (nonce ++ cipher)).drop envelopeHeaderLength = nonce ++ cipher :=
    List.drop_left' hlength
  unfold openEnvelope
  simp only [hversion]
  rw [← List.drop_drop, hdrop, htake, List.take_left' hnonce, List.drop_left' hnonce]
  by_cases hmem : version ∈ keys.versions
  · rw [if_pos hmem, Option.map_eq_some_iff]
    constructor
    · rintro ⟨plaintext, hdecrypt, rfl⟩
      obtain ⟨hmade, hsealed⟩ := Aead.Scheme.decrypt_eq_some.mp hdecrypt
      have hplain : plaintext.length = layout (handleSpec type).fields := by
        rw [hsealed, gcm.length_encrypt] at hcipher
        omega
      obtain ⟨hspecs, htext⟩ := unpackFields_spec hplain
      rw [htext]
      exact ⟨hspecs, hmem, hmade, hsealed⟩
    · rintro ⟨hdeclared, -, hmade, hsealed⟩
      exact ⟨plaintextOf fields, Aead.Scheme.decrypt_eq_some.mpr ⟨hmade, hsealed⟩,
        hdeclared.unpack⟩
  · rw [if_neg hmem]
    constructor
    · intro h
      cases h
    · rintro ⟨-, hversions, -⟩
      exact absurd hversions hmem

/-- What opens is what was sealed, and to the same fields. -/
theorem openHandle_eq_some {handle : String} :
    openHandle gcm made keys type handle = .ok (some fields) ↔
      IsSealed gcm made keys type fields handle := by
  constructor
  · intro h
    by_cases hbytes : ∃ bytes, handle = handleOf type bytes
    · obtain ⟨bytes, rfl⟩ := hbytes
      rw [openHandle_handleOf] at h
      split at h
      · cases h
      next hlength =>
      split at h
      · cases h
      next hheader =>
      have hlength := not_not.mp hlength
      obtain ⟨hversion, htype⟩ := not_or.mp hheader
      have hversion := not_not.mp hversion
      have htype := not_not.mp htype
      match bytes, hlength, hversion, htype, h with
      | first :: version :: third :: rest, hlength, hversion, htype, h =>
        cases hversion
        cases htype
        simp only [List.length_cons, envelopeHeaderLength, nonceLength, tagLength] at hlength
        have hnonce : (rest.take nonceLength).length = nonceLength := by
          rw [List.length_take, nonceLength]
          omega
        have hcipher : (rest.drop nonceLength).length =
            layout (handleSpec type).fields + tagLength := by
          rw [List.length_drop, nonceLength, tagLength]
          omega
        have hparts : envelopeVersion :: version :: (handleSpec type).type :: rest =
            envelopeHeader version type ++ (rest.take nonceLength ++ rest.drop nonceLength) := by
          rw [List.take_append_drop]
          rfl
        rw [hparts] at h ⊢
        have hopened := Except.ok.inj h
        rw [openEnvelope_eq_some rfl hnonce hcipher] at hopened
        obtain ⟨hdeclared, hmem, hmade, hsealed⟩ := hopened
        refine ⟨hdeclared, version, hmem, ⟨rest.take nonceLength, hnonce⟩, hmade, ?_⟩
        rw [handleText, ← hsealed]
      | [], _, hversion, _, _ => cases hversion
      | [_], _, _, htype, _ => cases htype
      | [_, _], _, _, htype, _ => cases htype
    · rw [openHandle_of_not_handleOf fun bytes heq => hbytes ⟨bytes, heq⟩] at h
      cases h
  · rintro ⟨hdeclared, version, hmem, nonce, hmade, rfl⟩
    have hcipher : (gcm.encrypt version nonce.val (envelopeHeader version type)
        (plaintextOf fields)).length = layout (handleSpec type).fields + tagLength := by
      rw [gcm.length_encrypt, hdeclared.length]
    have hlength : (envelopeHeader version type ++ (nonce.val ++ gcm.encrypt version nonce.val
        (envelopeHeader version type) (plaintextOf fields))).length =
        envelopeHeaderLength + nonceLength + layout (handleSpec type).fields + tagLength := by
      rw [List.length_append, List.length_append, hcipher, nonce.property]
      show 3 + _ = _
      rw [envelopeHeaderLength]
      omega
    rw [handleText, openHandle_handleOf, if_neg (not_not.mpr hlength), if_neg]
    · exact congrArg Except.ok ((openEnvelope_eq_some rfl nonce.property hcipher).mpr
        ⟨hdeclared, hmem, hmade, rfl⟩)
    · rintro (hversion | htype)
      · exact hversion rfl
      · exact htype rfl

/-! ### What does not open -/

theorem lead_length (type : HandleType) : (lead type).length = 7 := by
  cases type <;> decide

theorem lead_injective {type type' : HandleType} (h : lead type = lead type') : type = type' := by
  revert h
  cases type <;> cases type' <;> decide

theorem handleOf_injective {type' : HandleType} {bytes bytes' : Bytes}
    (h : handleOf type bytes = handleOf type' bytes') : type = type' ∧ bytes = bytes' := by
  have hchars := congrArg String.toList h
  rw [toList_handleOf, toList_handleOf] at hchars
  obtain ⟨hlead, htext⟩ := List.append_inj hchars (by rw [lead_length, lead_length])
  exact ⟨lead_injective hlead, encodeBase64Url_injective (String.ext htext)⟩

theorem type_injective {type' : HandleType}
    (h : (handleSpec type).type = (handleSpec type').type) : type = type' := by
  revert h
  cases type <;> cases type' <;> decide

/-- A string that is the handle of no encryption made under a key of the set does not open. -/
theorem openHandle_eq_none {handle : String}
    (h : ∀ fields, ¬ IsSealed gcm made keys type fields handle) :
    openHandle gcm made keys type handle = .ok none := by
  have hopens : ∃ result, openHandle gcm made keys type handle = .ok result := openHandle_ok handle
  obtain ⟨result, hresult⟩ := hopens
  cases result with
  | none => exact hresult
  | some fields => exact absurd (openHandle_eq_some.mp hresult) (h fields)

/-- The handle of one type does not open as another. -/
theorem openHandle_of_other {type' : HandleType} (hne : type' ≠ type) (version : UInt8)
    (nonce : Nonce) : openHandle gcm made keys type' (handleText gcm version nonce type fields) =
      .ok none := by
  apply openHandle_eq_none
  rintro fields' ⟨-, version', -, nonce', -, heq⟩
  exact hne (handleOf_injective heq).1.symm

/-- With nonces used once, a handle changed anywhere but in its nonce does not open. -/
theorem openHandle_of_altered (hnonces : (made.map (·.nonce)).Nodup) {version : UInt8}
    {nonce : Nonce} (hmade : sealingOf version nonce type fields ∈ made) {type' : HandleType}
    {header rest : Bytes} (hheader : header.length = envelopeHeaderLength)
    (hne : handleOf type' (header ++ (nonce.val ++ rest)) ≠
      handleText gcm version nonce type fields) :
    openHandle gcm made keys type' (handleOf type' (header ++ (nonce.val ++ rest))) =
      .ok none := by
  apply openHandle_eq_none
  rintro fields' ⟨-, version', -, nonce', hmade', heq⟩
  obtain ⟨-, hbytes⟩ := handleOf_injective heq
  have hlength : header.length = (envelopeHeader version' type').length := by
    rw [hheader]
    rfl
  obtain ⟨hheaders, hrest⟩ := List.append_inj hbytes hlength
  have hnoncelength : nonce.val.length = nonce'.val.length := by
    rw [nonce.property, nonce'.property]
  obtain ⟨hnonce, hcipher⟩ := List.append_inj hrest hnoncelength
  have hsame : sealingOf version' nonce' type' fields' = sealingOf version nonce type fields :=
    List.inj_on_of_nodup_map hnonces hmade' hmade hnonce.symm
  obtain ⟨rfl, -, henvelope, hplain⟩ := Aead.Sealing.mk.inj hsame
  have htype : type' = type := by
    have hbyte := congrArg (fun bytes : Bytes => bytes[2]?) henvelope
    exact type_injective (Option.some.inj hbyte)
  subst htype
  apply hne
  rw [heq, handleText, handleText, hplain, ← hnonce]

end Opening

end TinyOidc.Crypto
