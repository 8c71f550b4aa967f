import Mathlib
import Kdna.Data.Delimited
import Kdna.Data.Fallible
import Kdna.StrictInput

/-!
# Additional authenticated data

`externalEnvelopeAad` of `external-key-grant.js`, `passwordAadBytes` and the shape checks of
`protection-envelope-codec.js`, and the declaration that the readers check before. The
fields are joined by line feeds. Only the key reference and the issuer's key id may hold a
line feed themselves, and they are neighbours.
-/

namespace Kdna.Protection.Binding

/-- The codes of the checks. -/
inductive Code
  | coreInvalid
  | declarationInvalid
  | profileUnsupported
  | envelopeInvalid
  | bindingInvalid
  deriving DecidableEq, Repr

/-- The text of a code. -/
def Code.text : Code → String
  | .coreInvalid => "READ_CORE_INVALID"
  | .declarationInvalid => "PROTECTION_DECLARATION_INVALID"
  | .profileUnsupported => "PROTECTION_PROFILE_UNSUPPORTED"
  | .envelopeInvalid => "PROTECTION_ENVELOPE_INVALID"
  | .bindingInvalid => "KDNA_ENVELOPE_BINDING_INVALID"

/-- `manifest.encryption` -/
structure Encryption where
  profile : String
  profileVersion : String
  encryptedEntries : List String

/-- What the protection reads of a manifest; `entitlement` is the profile of it. -/
structure Manifest where
  assetUid : String
  assetId : String
  version : String
  access : Option String
  encrypted : Bool
  entitlement : Option String
  encryption : Option Encryption

/-- What the schema of a manifest says about these. -/
def manifestShape (m : Manifest) : Prop :=
  identifier m.assetUid ∧ identifier m.assetId ∧ identifier m.version ∧
    (∀ access ∈ m.access, access ∈ ["public", "licensed", "remote"]) ∧
    ∀ profile ∈ m.entitlement, profile ∈ ["password", "account", "org"]

instance (m : Manifest) : Decidable (manifestShape m) := by
  unfold manifestShape
  infer_instance

/-- `{id, version}` of a profile. -/
structure Profile where
  id : String
  version : String
  deriving DecidableEq

/-- `kdna.envelope.aead` -/
def aead : String := "kdna.envelope.aead"

/-- `EXTERNAL_ENVELOPE_PROFILE` -/
def external : String := "kdna.envelope.external-grant"

/-- `EXTERNAL_GRANT_CONTRACT_VERSION`, the version of both profiles. -/
def contractVersion : String := "0.1.0"

/-- `payload.kdnab` -/
def payloadEntry : String := "payload.kdnab"

/-- `assetProtectionDeclaration(manifest)` -/
def assetProtectionDeclaration (m : Manifest) : Except Code (Option Profile) :=
  if m.encrypted = false then do
    require (m.entitlement.isNone ∧ m.encryption.isNone) .declarationInvalid
    return none
  else do
    require (m.entitlement.isSome ∧ m.access = some "licensed" ∧ identifier m.assetUid)
      Code.declarationInvalid
    let d ← orFail .declarationInvalid m.encryption
    require (d.profileVersion = contractVersion ∧ d.profile ∈ [aead, external])
      Code.profileUnsupported
    require (d.encryptedEntries = [payloadEntry]) Code.declarationInvalid
    require (if d.profile = aead then m.entitlement = some "password"
      else m.entitlement = some "account" ∨ m.entitlement = some "org") Code.declarationInvalid
    return some ⟨d.profile, d.profileVersion⟩

/-- An external envelope. -/
structure ExternalEnvelope where
  profile : String
  contractVersion : String
  alg : String
  cekDerivation : String
  keyRef : String
  issuerKeyId : String
  entryPath : String
  plaintextDigest : String
  iv : String
  tag : String
  ciphertext : String
  deriving DecidableEq

/-- `^sha256:[0-9a-f]{64}$` -/
def isDigest (s : String) : Prop :=
  s.toList.take 7 = "sha256:".toList ∧ (s.toList.drop 7).length = 64 ∧
    (s.toList.drop 7).all fun c => c ∈ "0123456789abcdef".toList

instance (s : String) : Decidable (isDigest s) := by
  unfold isDigest
  infer_instance

/-- The schema of an external envelope, up to the patterns of `iv`, `tag` and `ciphertext`. -/
def externalShape (e : ExternalEnvelope) : Prop :=
  e.profile = external ∧ e.contractVersion = contractVersion ∧ e.alg = "A256GCM" ∧
    e.cekDerivation = "HKDF-SHA256" ∧ 1 ≤ e.keyRef.length ∧ e.keyRef.length ≤ 256 ∧
    1 ≤ e.issuerKeyId.length ∧ e.issuerKeyId.length ≤ 128 ∧ isDigest e.plaintextDigest

instance (e : ExternalEnvelope) : Decidable (externalShape e) := by
  unfold externalShape
  infer_instance

/-- The patterns and the base64 checks of `iv`, `tag` and `ciphertext`. -/
abbrev WellEncoded := String → String → String → Bool

/-- `validateEnvelopeShape(value, profile)` of an external envelope. -/
def validateEnvelopeShape (wellEncoded : WellEncoded) (e : ExternalEnvelope) (profile : Profile) :
    Except Code Unit := do
  require (e.profile = profile.id ∧ e.contractVersion = profile.version) Code.profileUnsupported
  require (externalShape e ∧ e.entryPath = payloadEntry) Code.envelopeInvalid
  require (wellEncoded e.iv e.tag e.ciphertext) Code.envelopeInvalid

/-- `fields.join('\n')` in UTF-8. -/
def joinLines (fields : List String) : Bytes :=
  Utf8.encodeChars (List.intercalate ['\n'] (fields.map String.toList))

/-- `passwordAadBytes(manifest)` -/
def passwordAadBytes (m : Manifest) : Bytes :=
  joinLines [aead, contractVersion, m.assetUid, m.assetId, m.version, payloadEntry,
    m.access.getD "", m.entitlement.getD ""]

/-- `externalEnvelopeAad({manifest, entryName, plaintextDigest, keyRef, issuerKeyId})` -/
def externalEnvelopeAad (m : Manifest) (entryName plaintextDigest keyRef issuerKeyId : String) :
    Except Code Bytes := do
  let fields := [external, contractVersion, m.assetUid, m.assetId, m.version, entryName,
    plaintextDigest, keyRef, issuerKeyId, m.access.getD "", m.entitlement.getD ""]
  require (∀ field ∈ fields, field ≠ "") .bindingInvalid
  require (m.access = some "licensed" ∧ m.entitlement.getD "" ∈ ["account", "org"])
    Code.bindingInvalid
  return joinLines fields

/-- A manifest and an envelope; nothing of a password envelope is bound. -/
inductive Pair
  | password (m : Manifest)
  | external (m : Manifest) (e : ExternalEnvelope)

/-- What is authenticated with the payload, of a pair that the readers accept. -/
def Pair.aad (wellEncoded : WellEncoded) : Pair → Except Code Bytes
  | .password m => do
    require (manifestShape m) .coreInvalid
    let profile ← assetProtectionDeclaration m
    require (profile = some ⟨aead, contractVersion⟩) .profileUnsupported
    return passwordAadBytes m
  | .external m e => do
    require (manifestShape m) .coreInvalid
    let profile ← assetProtectionDeclaration m
    require (profile = some ⟨Binding.external, contractVersion⟩) .profileUnsupported
    validateEnvelopeShape wellEncoded e ⟨Binding.external, contractVersion⟩
    externalEnvelopeAad m payloadEntry e.plaintextDigest e.keyRef e.issuerKeyId

/-- The fields that the data binds. -/
structure Bound where
  profile : String
  assetUid : String
  assetId : String
  version : String
  entryName : String
  access : Option String
  entitlement : Option String
  plaintextDigest : Option String
  keyRef : Option String
  issuerKeyId : Option String
  deriving DecidableEq

/-- The bound fields of a pair. -/
def Pair.bound : Pair → Bound
  | .password m => ⟨aead, m.assetUid, m.assetId, m.version, payloadEntry, m.access,
      m.entitlement, none, none, none⟩
  | .external m e => ⟨Binding.external, m.assetUid, m.assetId, m.version, e.entryPath, m.access,
      m.entitlement, some e.plaintextDigest, some e.keyRef, some e.issuerKeyId⟩

section Lines

variable {a : String}

/-- No line feed stands in the text. -/
def SingleLine (s : String) : Prop := '\n' ∉ s.toList

theorem singleLine_of_identifier (h : identifier a = true) : SingleLine a := by
  simp only [identifier, scalarString, Bool.and_eq_true, Bool.or_eq_true, List.all_eq_true] at h
  intro hmem
  have hnewline := h.2.1.resolve_left (by decide) _ hmem
  exact absurd hnewline (by decide)

theorem singleLine_of_isDigest (h : isDigest a) : SingleLine a := by
  obtain ⟨hhead, -, htail⟩ := h
  intro hmem
  rw [← List.take_append_drop 7 a.toList, List.mem_append, hhead] at hmem
  rcases hmem with hmem | hmem
  · exact absurd hmem (by decide)
  · have hdigit := List.all_eq_true.mp htail _ hmem
    exact absurd hdigit (by decide)

theorem joinLines_injective {l l' : List String} (h : joinLines l = joinLines l') :
    List.intercalate ['\n'] (l.map String.toList) =
      List.intercalate ['\n'] (l'.map String.toList) := by
  have hencode (cs : List Char) : Utf8.encode (String.ofList cs) = Utf8.encodeChars cs := by
    rw [Utf8.encode, String.toList_ofList]
  rw [joinLines, joinLines, ← hencode, ← hencode] at h
  exact String.ofList_injective (Utf8.encode_injective h)

/-- The lines behind the first one. -/
theorem intercalate_cons_cons (x y : List Char) (l : List (List Char)) :
    List.intercalate ['\n'] (x :: y :: l) = x ++ '\n' :: List.intercalate ['\n'] (y :: l) := by
  simp [List.intercalate]

/-- A line that holds no line feed is determined by the lines that it starts. -/
theorem firstLine_inj {s t : String} {x y : List Char} (hs : SingleLine s) (ht : SingleLine t)
    (h : s.toList ++ '\n' :: x = t.toList ++ '\n' :: y) : s = t ∧ x = y := by
  obtain ⟨hline, hrest⟩ := append_cons_inj hs ht h
  exact ⟨String.toList_injective hline, hrest⟩

/-- A line that holds no line feed is determined by the lines that it ends. -/
theorem lastLine_inj {s t : String} {x y : List Char} (hs : SingleLine s) (ht : SingleLine t)
    (h : x ++ '\n' :: s.toList = y ++ '\n' :: t.toList) : x = y ∧ s = t := by
  obtain ⟨hrest, hline⟩ := append_cons_inj_right hs ht h
  exact ⟨hrest, String.toList_injective hline⟩

end Lines

section Accepted

variable {m m' : Manifest} {e e' : ExternalEnvelope} {wellEncoded : WellEncoded} {b : Bytes}

theorem declaration_access {profile : Profile}
    (h : assetProtectionDeclaration m = .ok (some profile)) : m.access = some "licensed" := by
  rw [assetProtectionDeclaration] at h
  split_ifs at h
  · obtain ⟨-, -, h⟩ := bind_eq_ok_iff.mp h
    exact nomatch h
  · exact (require_bind_eq_ok_iff.mp h).1.2.1

theorem declaration_entitlement {profile : Profile}
    (h : assetProtectionDeclaration m = .ok (some profile)) :
    if profile.id = aead then m.entitlement = some "password"
      else m.entitlement = some "account" ∨ m.entitlement = some "org" := by
  rw [assetProtectionDeclaration] at h
  split_ifs at h with hplain
  · obtain ⟨-, -, h⟩ := bind_eq_ok_iff.mp h
    exact nomatch h
  · obtain ⟨-, h⟩ := require_bind_eq_ok_iff.mp h
    obtain ⟨d, -, h⟩ := bind_eq_ok_iff.mp h
    obtain ⟨-, h⟩ := require_bind_eq_ok_iff.mp h
    obtain ⟨-, h⟩ := require_bind_eq_ok_iff.mp h
    obtain ⟨hentitlement, h⟩ := require_bind_eq_ok_iff.mp h
    obtain rfl := Option.some.inj (Except.ok.inj h)
    exact hentitlement

/-- The lines of a password pair. -/
theorem aad_password_eq_ok_iff : (Pair.password m).aad wellEncoded = .ok b ↔
    manifestShape m ∧ assetProtectionDeclaration m = .ok (some ⟨aead, contractVersion⟩) ∧
      b = joinLines [aead, contractVersion, m.assetUid, m.assetId, m.version, payloadEntry,
        "licensed", "password"] := by
  rw [Pair.aad, require_bind_eq_ok_iff]
  refine and_congr_right fun _ => ?_
  rw [bind_eq_ok_iff]
  constructor
  · rintro ⟨profile, hdeclared, h⟩
    obtain ⟨rfl, h⟩ := require_bind_eq_ok_iff.mp h
    have haccess := declaration_access hdeclared
    have hentitlement := declaration_entitlement hdeclared
    rw [if_pos rfl] at hentitlement
    obtain rfl := Except.ok.inj h
    rw [passwordAadBytes, haccess, hentitlement]
    exact ⟨hdeclared, rfl⟩
  · rintro ⟨hdeclared, rfl⟩
    have haccess := declaration_access hdeclared
    have hentitlement := declaration_entitlement hdeclared
    rw [if_pos rfl] at hentitlement
    refine ⟨_, hdeclared, ?_⟩
    rw [require_bind_of_pos rfl, passwordAadBytes, haccess, hentitlement]
    rfl

/-- The lines of an external pair. -/
def externalLines (m : Manifest) (e : ExternalEnvelope) : List String :=
  [external, contractVersion, m.assetUid, m.assetId, m.version, payloadEntry, e.plaintextDigest,
    e.keyRef, e.issuerKeyId, "licensed", m.entitlement.getD ""]

/-- The fields of an accepted external pair are not empty. -/
theorem externalLines_ne_empty (hm : manifestShape m) (he : externalShape e)
    (hentitlement : m.entitlement.getD "" ∈ ["account", "org"]) :
    ∀ field ∈ externalLines m e, field ≠ "" := by
  have hidentifier {s : String} (h : identifier s = true) : s ≠ "" := by
    rintro rfl
    exact absurd h (by decide)
  have hlength {s : String} (h : 1 ≤ s.length) : s ≠ "" := by
    rintro rfl
    exact absurd h (by decide)
  have hdigest {s : String} (h : isDigest s) : s ≠ "" := by
    rintro rfl
    exact absurd h (by decide)
  obtain ⟨huid, hid, hversion, -⟩ := hm
  obtain ⟨-, -, -, -, hkey, -, hissuer, -, hplain⟩ := he
  have hprofile : m.entitlement.getD "" ≠ "" := by
    rintro hempty
    rw [hempty] at hentitlement
    exact absurd hentitlement (by decide)
  simp only [externalLines, List.forall_mem_cons, List.not_mem_nil, false_imp_iff,
    implies_true, and_true]
  exact ⟨by decide, by decide, hidentifier huid, hidentifier hid, hidentifier hversion,
    by decide, hdigest hplain, hlength hkey, hlength hissuer, by decide, hprofile⟩

theorem aad_external_eq_ok_iff : (Pair.external m e).aad wellEncoded = .ok b ↔
    manifestShape m ∧ assetProtectionDeclaration m = .ok (some ⟨external, contractVersion⟩) ∧
      externalShape e ∧ e.entryPath = payloadEntry ∧ wellEncoded e.iv e.tag e.ciphertext ∧
      b = joinLines (externalLines m e) := by
  rw [Pair.aad, require_bind_eq_ok_iff]
  refine and_congr_right fun hm => ?_
  rw [bind_eq_ok_iff]
  have hdeclaration (h : assetProtectionDeclaration m = .ok (some ⟨external, contractVersion⟩)) :
      m.access = some "licensed" ∧ m.entitlement.getD "" ∈ ["account", "org"] := by
    have hentitlement := declaration_entitlement h
    rw [if_neg (by decide)] at hentitlement
    refine ⟨declaration_access h, ?_⟩
    rcases hentitlement with h | h <;> rw [h] <;> decide
  constructor
  · rintro ⟨profile, hdeclared, h⟩
    obtain ⟨rfl, h⟩ := require_bind_eq_ok_iff.mp h
    obtain ⟨haccess, -⟩ := hdeclaration hdeclared
    simp only [validateEnvelopeShape, externalEnvelopeAad, bind_eq_ok_iff, require_eq_ok_iff,
      pure_eq_ok, Except.ok.injEq, exists_const] at h
    obtain ⟨-, ⟨-, ⟨hshape, hentry⟩, hencoded⟩, -, -, rfl⟩ := h
    rw [haccess]
    exact ⟨hdeclared, hshape, hentry, hencoded, rfl⟩
  · rintro ⟨hdeclared, hshape, hentry, hencoded, rfl⟩
    obtain ⟨haccess, hentitlement⟩ := hdeclaration hdeclared
    have hlines := externalLines_ne_empty hm hshape hentitlement
    refine ⟨_, hdeclared, ?_⟩
    simp only [validateEnvelopeShape, externalEnvelopeAad, bind_eq_ok_iff, require_eq_ok_iff,
      pure_eq_ok, Except.ok.injEq, exists_const, haccess]
    exact ⟨trivial, ⟨⟨hshape.1, hshape.2.1⟩, ⟨hshape, hentry⟩, hencoded⟩, hlines,
      ⟨trivial, hentitlement⟩, rfl⟩

/-- A key reference and an issuer's key id that the schema of an envelope admits. -/
def Admissible (keyRef issuerKeyId : String) : Prop :=
  (1 ≤ keyRef.length ∧ keyRef.length ≤ 256) ∧ 1 ≤ issuerKeyId.length ∧ issuerKeyId.length ≤ 128

/-- The two texts can be divided at another line feed into two admissible ones. -/
def Shiftable (keyRef issuerKeyId : String) : Prop :=
  ∃ keyRef' issuerKeyId', Admissible keyRef' issuerKeyId' ∧ keyRef' ≠ keyRef ∧
    keyRef'.toList ++ '\n' :: issuerKeyId'.toList = keyRef.toList ++ '\n' :: issuerKeyId.toList

/-- The boundary between two neighbours of a pair can be shifted. -/
def Pair.Shiftable : Pair → Prop
  | .password _ => False
  | .external _ e => Binding.Shiftable e.keyRef e.issuerKeyId

/-- The lines in front of the key reference are those of the manifest and the digest; what is
between them and the last two lines is the key reference and the key id. -/
theorem externalLines_inj (hm : manifestShape m) (hm' : manifestShape m')
    (he : externalShape e) (he' : externalShape e')
    (hentitlement : SingleLine (m.entitlement.getD ""))
    (hentitlement' : SingleLine (m'.entitlement.getD ""))
    (h : joinLines (externalLines m e) = joinLines (externalLines m' e')) :
    m.assetUid = m'.assetUid ∧ m.assetId = m'.assetId ∧ m.version = m'.version ∧
      e.plaintextDigest = e'.plaintextDigest ∧
      m.entitlement.getD "" = m'.entitlement.getD "" ∧
      e.keyRef.toList ++ '\n' :: e.issuerKeyId.toList =
        e'.keyRef.toList ++ '\n' :: e'.issuerKeyId.toList := by
  have hconst {s : String} (h : '\n' ∉ s.toList) : SingleLine s := h
  have hlines := joinLines_injective h
  simp only [externalLines, List.map_cons, List.map_nil, intercalate_cons_cons] at hlines
  obtain ⟨-, hlines⟩ := firstLine_inj (hconst (by decide)) (hconst (by decide)) hlines
  obtain ⟨-, hlines⟩ := firstLine_inj (hconst (by decide)) (hconst (by decide)) hlines
  obtain ⟨huid, hlines⟩ := firstLine_inj (singleLine_of_identifier hm.1)
    (singleLine_of_identifier hm'.1) hlines
  obtain ⟨hid, hlines⟩ := firstLine_inj (singleLine_of_identifier hm.2.1)
    (singleLine_of_identifier hm'.2.1) hlines
  obtain ⟨hversion, hlines⟩ := firstLine_inj (singleLine_of_identifier hm.2.2.1)
    (singleLine_of_identifier hm'.2.2.1) hlines
  obtain ⟨-, hlines⟩ := firstLine_inj (hconst (by decide)) (hconst (by decide)) hlines
  obtain ⟨hdigest, hlines⟩ := firstLine_inj (singleLine_of_isDigest he.2.2.2.2.2.2.2.2)
    (singleLine_of_isDigest he'.2.2.2.2.2.2.2.2) hlines
  have hregroup (k i a : List Char) (t : String) :
      k ++ '\n' :: (i ++ '\n' :: (a ++ '\n' :: List.intercalate ['\n'] [t.toList])) =
        ((k ++ '\n' :: i) ++ '\n' :: a) ++ '\n' :: t.toList := by
    simp [List.intercalate]
  rw [hregroup, hregroup] at hlines
  obtain ⟨hlines, hprofile⟩ := lastLine_inj hentitlement hentitlement' hlines
  obtain ⟨hkeys, -⟩ := lastLine_inj (hconst (by decide)) (hconst (by decide)) hlines
  exact ⟨huid, hid, hversion, hdigest, hprofile, hkeys⟩

/-- A manifest that an external envelope is read under names one of two profiles. -/
theorem singleLine_entitlement
    (h : assetProtectionDeclaration m = .ok (some ⟨external, contractVersion⟩)) :
    SingleLine (m.entitlement.getD "") := by
  have hentitlement := declaration_entitlement h
  rw [if_neg (by decide)] at hentitlement
  rcases hentitlement with h | h <;> rw [h] <;> unfold SingleLine <;> decide

/-- The entitlement profile is declared. -/
theorem entitlement_eq_some_getD {profile : Profile}
    (h : assetProtectionDeclaration m = .ok (some profile)) :
    m.entitlement = some (m.entitlement.getD "") := by
  have hentitlement := declaration_entitlement h
  split_ifs at hentitlement
  · rw [hentitlement]
    rfl
  · rcases hentitlement with h | h <;> rw [h] <;> rfl

theorem passwordLines_inj (hm : manifestShape m) (hm' : manifestShape m')
    (h : joinLines [aead, contractVersion, m.assetUid, m.assetId, m.version, payloadEntry,
        "licensed", "password"] =
      joinLines [aead, contractVersion, m'.assetUid, m'.assetId, m'.version, payloadEntry,
        "licensed", "password"]) :
    m.assetUid = m'.assetUid ∧ m.assetId = m'.assetId ∧ m.version = m'.version := by
  have hconst {s : String} (h : '\n' ∉ s.toList) : SingleLine s := h
  have hlines := joinLines_injective h
  simp only [List.map_cons, List.map_nil, intercalate_cons_cons] at hlines
  obtain ⟨-, hlines⟩ := firstLine_inj (hconst (by decide)) (hconst (by decide)) hlines
  obtain ⟨-, hlines⟩ := firstLine_inj (hconst (by decide)) (hconst (by decide)) hlines
  obtain ⟨huid, hlines⟩ := firstLine_inj (singleLine_of_identifier hm.1)
    (singleLine_of_identifier hm'.1) hlines
  obtain ⟨hid, hlines⟩ := firstLine_inj (singleLine_of_identifier hm.2.1)
    (singleLine_of_identifier hm'.2.1) hlines
  obtain ⟨hversion, -⟩ := firstLine_inj (singleLine_of_identifier hm.2.2.1)
    (singleLine_of_identifier hm'.2.2.1) hlines
  exact ⟨huid, hid, hversion⟩

/-- The first lines of the two profiles differ. -/
theorem joinLines_profile_ne {a c : String} {l l' : List String} :
    joinLines (aead :: a :: l) ≠ joinLines (external :: c :: l') := by
  have hconst {s : String} (h : '\n' ∉ s.toList) : SingleLine s := h
  intro h
  have hlines := joinLines_injective h
  simp only [List.map_cons, intercalate_cons_cons] at hlines
  obtain ⟨hprofile, -⟩ := firstLine_inj (hconst (by decide)) (hconst (by decide)) hlines
  exact absurd hprofile (by decide)

/-- An envelope whose two texts are divided at another line feed. -/
def ExternalEnvelope.shift (e : ExternalEnvelope) (keyRef issuerKeyId : String) :
    ExternalEnvelope :=
  { e with keyRef, issuerKeyId }

theorem externalShape_shift {k i : String} (hadmissible : Admissible k i)
    (hshape : externalShape e) : externalShape (e.shift k i) := by
  obtain ⟨hprofile, hcontract, halg, hderivation, -, -, -, -, hdigest⟩ := hshape
  obtain ⟨⟨hk, hk'⟩, hi, hi'⟩ := hadmissible
  exact ⟨hprofile, hcontract, halg, hderivation, hk, hk', hi, hi', hdigest⟩

/-- The lines of the shifted envelope are the same text. -/
theorem externalEnvelopeAad_shift {k i entryName plaintextDigest : String}
    (hadmissible : Admissible k i)
    (hsplit : k.toList ++ '\n' :: i.toList = e.keyRef.toList ++ '\n' :: e.issuerKeyId.toList)
    (h : externalEnvelopeAad m entryName plaintextDigest e.keyRef e.issuerKeyId = .ok b) :
    externalEnvelopeAad m entryName plaintextDigest k i = .ok b := by
  have hne {s : String} (h : 1 ≤ s.length) : s ≠ "" := by
    rintro rfl
    exact absurd h (by decide)
  have hregroup (k i : List Char) (l : List Char) :
      k ++ '\n' :: (i ++ '\n' :: l) = (k ++ '\n' :: i) ++ '\n' :: l := by
    simp
  simp only [externalEnvelopeAad, bind_eq_ok_iff, require_eq_ok_iff, pure_eq_ok,
    Except.ok.injEq, exists_const, List.forall_mem_cons] at h ⊢
  obtain ⟨⟨h1, h2, h3, h4, h5, h6, h7, -, -, hrest⟩, haccess, rfl⟩ := h
  refine ⟨⟨h1, h2, h3, h4, h5, h6, h7, hne hadmissible.1.1, hne hadmissible.2.1, hrest⟩,
    haccess, ?_⟩
  simp only [joinLines, List.map_cons, List.map_nil, intercalate_cons_cons]
  rw [hregroup k.toList, hregroup e.keyRef.toList, hsplit]

/-- The readers accept it, and authenticate the same bytes with its payload. -/
theorem aad_shift {k i : String} (hadmissible : Admissible k i)
    (hsplit : k.toList ++ '\n' :: i.toList = e.keyRef.toList ++ '\n' :: e.issuerKeyId.toList)
    (h : (Pair.external m e).aad wellEncoded = .ok b) :
    (Pair.external m (e.shift k i)).aad wellEncoded = .ok b := by
  simp only [Pair.aad, validateEnvelopeShape, bind_eq_ok_iff, require_eq_ok_iff,
    exists_const] at h ⊢
  obtain ⟨hm, profile, hdeclared, hprofile, ⟨hversion, ⟨hshape, hentry⟩, hencoded⟩, haad⟩ := h
  exact ⟨hm, profile, hdeclared, hprofile,
    ⟨hversion, ⟨externalShape_shift hadmissible hshape, hentry⟩, hencoded⟩,
    externalEnvelopeAad_shift hadmissible hsplit haad⟩

/-- Equal bytes leave nothing open but the boundary between the key reference and the key id. -/
theorem aad_external_inj (h : (Pair.external m e).aad wellEncoded = .ok b)
    (h' : (Pair.external m' e').aad wellEncoded = .ok b) :
    e.keyRef.toList ++ '\n' :: e.issuerKeyId.toList =
        e'.keyRef.toList ++ '\n' :: e'.issuerKeyId.toList ∧
      (e'.keyRef = e.keyRef → (Pair.external m' e').bound = (Pair.external m e).bound) := by
  obtain ⟨hm, hdeclared, hshape, hentry, -, rfl⟩ := aad_external_eq_ok_iff.mp h
  obtain ⟨hm', hdeclared', hshape', hentry', -, hb⟩ := aad_external_eq_ok_iff.mp h'
  obtain ⟨huid, hid, hversion, hdigest, hprofile, hkeys⟩ := externalLines_inj hm hm'
    hshape hshape' (singleLine_entitlement hdeclared) (singleLine_entitlement hdeclared') hb
  refine ⟨hkeys, fun hkey => ?_⟩
  have hissuer : e'.issuerKeyId = e.issuerKeyId := by
    rw [hkey] at hkeys
    exact String.toList_injective (List.cons.inj (List.append_cancel_left hkeys)).2.symm
  have hentitlement : m'.entitlement = m.entitlement := by
    rw [entitlement_eq_some_getD hdeclared, entitlement_eq_some_getD hdeclared', hprofile]
  simp only [Pair.bound, huid, hid, hversion, hdigest, hkey, hissuer, hentry, hentry',
    declaration_access hdeclared, declaration_access hdeclared', hentitlement]

/-- The bytes determine the bound fields, but where the boundary between the key reference and
the key id can be shifted. -/
theorem aad_determines_bound_iff (wellEncoded : WellEncoded) (p : Pair) (b : Bytes)
    (h : p.aad wellEncoded = .ok b) :
    (∀ p' : Pair, p'.aad wellEncoded = .ok b → p'.bound = p.bound) ↔ ¬ p.Shiftable := by
  constructor
  · intro hbound hshift
    cases p with
    | password m => exact hshift
    | external m e =>
      obtain ⟨k, i, hadmissible, hne, hsplit⟩ := hshift
      have hshifted := hbound _ (aad_shift hadmissible hsplit h)
      simp only [Pair.bound, ExternalEnvelope.shift, Bound.mk.injEq, Option.some.injEq] at hshifted
      exact hne hshifted.2.2.2.2.2.2.2.2.1
  · intro hfixed p' h'
    cases p with
    | password m =>
      obtain ⟨hm, hdeclared, rfl⟩ := aad_password_eq_ok_iff.mp h
      cases p' with
      | password m' =>
        obtain ⟨hm', hdeclared', hb⟩ := aad_password_eq_ok_iff.mp h'
        obtain ⟨huid, hid, hversion⟩ := passwordLines_inj hm hm' hb
        have hpassword := declaration_entitlement hdeclared
        have hpassword' := declaration_entitlement hdeclared'
        rw [if_pos rfl] at hpassword hpassword'
        simp only [Pair.bound, huid, hid, hversion, declaration_access hdeclared,
          declaration_access hdeclared', hpassword, hpassword']
      | external m' e' =>
        obtain ⟨-, -, -, -, -, hb⟩ := aad_external_eq_ok_iff.mp h'
        exact absurd hb joinLines_profile_ne
    | external m e =>
      cases p' with
      | password m' =>
        obtain ⟨-, -, -, -, -, rfl⟩ := aad_external_eq_ok_iff.mp h
        obtain ⟨-, -, hb⟩ := aad_password_eq_ok_iff.mp h'
        exact absurd hb.symm joinLines_profile_ne
      | external m' e' =>
        obtain ⟨hkeys, hbound⟩ := aad_external_inj h h'
        obtain ⟨-, -, hshape', -⟩ := aad_external_eq_ok_iff.mp h'
        refine hbound ?_
        by_contra hne
        obtain ⟨-, -, -, -, hk, hk', hi, hi', -⟩ := hshape'
        exact hfixed ⟨e'.keyRef, e'.issuerKeyId, ⟨⟨hk, hk'⟩, hi, hi'⟩, hne, hkeys.symm⟩

/-- What the producers demand of the two texts. -/
theorem not_shiftable_of_singleLine {k i : String} (hk : SingleLine k) (hi : SingleLine i) :
    ¬ Shiftable k i := by
  rintro ⟨k', i', -, hne, hsplit⟩
  have hcount := congrArg (List.count '\n') hsplit
  have hfree {s : String} (h : SingleLine s) : List.count '\n' s.toList = 0 :=
    List.count_eq_zero.mpr h
  rw [List.count_append, List.count_append, List.count_cons_self, List.count_cons_self, hfree hk,
    hfree hi] at hcount
  have hk' : SingleLine k' := List.count_eq_zero.mp (by omega)
  exact hne (firstLine_inj hk' hk hsplit).1

/-- An envelope that a producer writes is bound to its fields. -/
theorem not_shiftable_of_identifier {k i : String} (hk : identifier k = true)
    (hi : identifier i = true) : ¬ Shiftable k i :=
  not_shiftable_of_singleLine (singleLine_of_identifier hk) (singleLine_of_identifier hi)

/-- The pattern of `$defs.id`, which a grant demands of the key id that it repeats. -/
def grantId (s : String) : Prop :=
  1 ≤ s.length ∧ s.length ≤ 256 ∧ s.toList.all fun c =>
    c.isAlphanum ∨ c ∈ "._:@-/".toList

theorem singleLine_of_grantId {s : String} (h : grantId s) : SingleLine s := by
  intro hmem
  have hnewline := List.all_eq_true.mp h.2.2 _ hmem
  exact absurd hnewline (by decide)

/-- Two pairs that are each read with a grant are told apart by the bytes. -/
theorem bound_eq_of_granted (hgrant : grantId e.issuerKeyId) (hgrant' : grantId e'.issuerKeyId)
    (h : (Pair.external m e).aad wellEncoded = .ok b)
    (h' : (Pair.external m' e').aad wellEncoded = .ok b) :
    (Pair.external m' e').bound = (Pair.external m e).bound := by
  obtain ⟨hkeys, hbound⟩ := aad_external_inj h h'
  obtain ⟨hkey, -⟩ := lastLine_inj (singleLine_of_grantId hgrant)
    (singleLine_of_grantId hgrant') hkeys
  exact hbound (String.toList_injective hkey.symm)

end Accepted

section Session

/-- The primitives under a session. -/
structure Primitives where
  digest : Bytes → String
  fromBase64Url : String → Bytes
  decodeB64url : String → Option Nat → Option Bytes
  decipher : Bytes → Bytes → Bytes → Bytes → Bytes → Option Bytes

/-- What a session of `authorizeExternalKeyGrant` keeps for its `decryptEntry`. -/
structure Session where
  entryPath : String
  ciphertextDigest : String
  cek : Bytes

/-- The codes of `decryptEntry`. -/
inductive SessionCode
  | envelopeFormatInvalid
  | assetMismatch
  | digestMismatch
  | formatInvalid
  | tampered
  | binding (code : Code)
  deriving DecidableEq, Repr

/-- The text of a code. -/
def SessionCode.text : SessionCode → String
  | .envelopeFormatInvalid => "KDNA_ENVELOPE_FORMAT_INVALID"
  | .assetMismatch => "KDNA_GRANT_ASSET_MISMATCH"
  | .digestMismatch => "KDNA_GRANT_DIGEST_MISMATCH"
  | .formatInvalid => "KDNA_GRANT_FORMAT_INVALID"
  | .tampered => "KDNA_GRANT_TAMPERED"
  | .binding code => code.text

/-- `^[^/].*[^/]$|^[^/]$`, of at most 256 characters. -/
def entryPathShape (s : String) : Prop :=
  s.length ≤ 256 ∧ s ≠ "" ∧ s.toList.head? ≠ some '/' ∧ s.toList.getLast? ≠ some '/' ∧
    (s.length = 1 ∨ ∀ c ∈ s.toList.tail.dropLast, c ∉ ['\n', '\r', '\u2028', '\u2029'])

instance (s : String) : Decidable (entryPathShape s) := by
  unfold entryPathShape
  infer_instance

variable (P : Primitives) (wellEncoded : WellEncoded)

/-- `decryptEntry({entryName, ciphertext, manifest})` of a session, after the decoding of the
envelope. The envelope is not compared with the one that the session was opened for. -/
def decryptEntry (session : Session) (entryName : String) (e : ExternalEnvelope) (m : Manifest) :
    Except SessionCode Bytes := do
  require (externalShape e ∧ entryPathShape e.entryPath ∧ wellEncoded e.iv e.tag e.ciphertext)
    .envelopeFormatInvalid
  require (entryName = session.entryPath) .assetMismatch
  require (P.digest (P.fromBase64Url e.ciphertext) = session.ciphertextDigest) .digestMismatch
  let aad ← (externalEnvelopeAad m entryName e.plaintextDigest e.keyRef e.issuerKeyId).mapError
    .binding
  let iv ← orFail .formatInvalid (P.decodeB64url e.iv (some 12))
  let tag ← orFail .formatInvalid (P.decodeB64url e.tag (some 16))
  let ciphertext ← orFail .formatInvalid (P.decodeB64url e.ciphertext none)
  let plaintext ← orFail .tampered (P.decipher session.cek iv aad tag ciphertext)
  require (P.digest plaintext = e.plaintextDigest) .digestMismatch
  return plaintext

variable {P wellEncoded} {e : ExternalEnvelope} {k i : String}

/-- A session opens the shifted envelope too, though its key reference is not the one that the
grant names. -/
theorem decryptEntry_shift {session : Session} {entryName : String} {m : Manifest}
    {plaintext : Bytes} (hadmissible : Admissible k i)
    (hsplit : k.toList ++ '\n' :: i.toList = e.keyRef.toList ++ '\n' :: e.issuerKeyId.toList)
    (h : decryptEntry P wellEncoded session entryName e m = .ok plaintext) :
    decryptEntry P wellEncoded session entryName (e.shift k i) m = .ok plaintext := by
  have hmap {x : Except Code Bytes} {aad : Bytes} :
      x.mapError SessionCode.binding = .ok aad ↔ x = .ok aad := by
    cases x <;> simp [Except.mapError]
  simp only [decryptEntry, bind_eq_ok_iff, require_eq_ok_iff, orFail_eq_ok_iff, pure_eq_ok,
    Except.ok.injEq, exists_const, hmap] at h ⊢
  obtain ⟨⟨hshape, hpath, hencoded⟩, hname, hdigest, aad, haad, hopened⟩ := h
  exact ⟨⟨externalShape_shift hadmissible hshape, hpath, hencoded⟩, hname, hdigest, aad,
    externalEnvelopeAad_shift hadmissible hsplit haad, hopened⟩

end Session

/-- A manifest that an external envelope is read under. -/
def sampleManifest : Manifest where
  assetUid := "kdna:example:uid"
  assetId := "example"
  version := "1.0.0"
  access := some "licensed"
  encrypted := true
  entitlement := some "account"
  encryption := some ⟨external, contractVersion, [payloadEntry]⟩

/-- An envelope of it with the two texts given. -/
def sampleEnvelope (keyRef issuerKeyId : String) : ExternalEnvelope where
  profile := external
  contractVersion := contractVersion
  alg := "A256GCM"
  cekDerivation := "HKDF-SHA256"
  keyRef := keyRef
  issuerKeyId := issuerKeyId
  entryPath := payloadEntry
  plaintextDigest := "sha256:" ++ String.ofList (List.replicate 64 '0')
  iv := "AAAAAAAAAAAAAAAA"
  tag := "AAAAAAAAAAAAAAAAAAAAAA"
  ciphertext := "AA"

theorem sampleManifest_declared :
    assetProtectionDeclaration sampleManifest = .ok (some ⟨external, contractVersion⟩) := by
  decide

theorem sampleEnvelope_aad (keyRef issuerKeyId : String) (h : Admissible keyRef issuerKeyId) :
    (Pair.external sampleManifest (sampleEnvelope keyRef issuerKeyId)).aad (fun _ _ _ => true) =
      .ok (joinLines (externalLines sampleManifest (sampleEnvelope keyRef issuerKeyId))) := by
  rw [aad_external_eq_ok_iff]
  have hdigest : isDigest (sampleEnvelope keyRef issuerKeyId).plaintextDigest := by
    show isDigest ("sha256:" ++ String.ofList (List.replicate 64 '0'))
    decide
  exact ⟨by decide, sampleManifest_declared,
    ⟨rfl, rfl, rfl, rfl, h.1.1, h.1.2, h.2.1, h.2.2, hdigest⟩, rfl, rfl, rfl⟩

/-- The data of two texts without a line feed determines the bound fields. -/
theorem aad_determines_bound_iff_sample :
    (∀ p' : Pair, p'.aad (fun _ _ _ => true) =
        .ok (joinLines (externalLines sampleManifest (sampleEnvelope "key" "issuer"))) →
      p'.bound = (Pair.external sampleManifest (sampleEnvelope "key" "issuer")).bound) ↔
    ¬ (Pair.external sampleManifest (sampleEnvelope "key" "issuer")).Shiftable :=
  aad_determines_bound_iff _ _ _ (sampleEnvelope_aad "key" "issuer" (by unfold Admissible; decide))

/-- Two envelopes that are accepted with one manifest, whose bytes are equal and whose key
references are not. -/
theorem aad_determines_bound_counterexample :
    ∃ b, (Pair.external sampleManifest (sampleEnvelope "a\nb" "c")).aad (fun _ _ _ => true) =
        .ok b ∧
      (Pair.external sampleManifest (sampleEnvelope "a" "b\nc")).aad (fun _ _ _ => true) =
        .ok b ∧
      (Pair.external sampleManifest (sampleEnvelope "a\nb" "c")).bound ≠
        (Pair.external sampleManifest (sampleEnvelope "a" "b\nc")).bound := by
  have haccepted := sampleEnvelope_aad "a\nb" "c" (by unfold Admissible; decide)
  refine ⟨_, haccepted, ?_, ?_⟩
  · exact aad_shift (e := sampleEnvelope "a\nb" "c") (k := "a") (i := "b\nc")
      (by unfold Admissible; decide) (by decide) haccepted
  · intro h
    have hkey := congrArg Bound.keyRef h
    exact absurd hkey (by decide)

end Kdna.Protection.Binding
