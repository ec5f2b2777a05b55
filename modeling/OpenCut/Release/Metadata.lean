import OpenCut.Domain.Clock
import OpenCut.Lib.Outcome
import OpenCut.Lib.Threshold
import OpenCut.Release.Version

/-!
# Release metadata

`internal/release/metadata.go` and the trust configuration of `internal/config/config.go`. The
metadata of a release is accepted if it is valid for the cell and at least as many identities
of the trust configuration signed it as its threshold says.

The configuration makes sure that the identities differ; it does not look whether their keys
do. So what is accepted is signed by as many keys exactly if the threshold is one or the keys
differ (`TrustConfig.Countable`).

Signatures are a parameter (`TrustScheme`), and so is how what is signed is written.
-/

namespace OpenCut

open Outcome List

/-! ## The model -/

/-- `TrustKey`. -/
structure TrustKey where
  id : Text
  publicKey : Text
deriving DecidableEq

/-- `TrustConfig`. -/
structure TrustConfig where
  threshold : Int
  keys : List TrustKey

/-- `release.Signature`. -/
structure Signature where
  keyID : Text
  signature : Text
deriving DecidableEq

/-- `BundleDescriptor`. -/
structure BundleDescriptor where
  path : Text
  size : Int
  sha256 : Text
deriving DecidableEq

/-- `Descriptor`. -/
structure Descriptor where
  schema : Int
  channel : Text
  version : Text
  target : Target
  bundle : BundleDescriptor
  minimumBootstrapProtocol : Text
  publishedAt : Instant
  expiresAt : Instant
deriving DecidableEq

/-- `Envelope`. -/
structure Envelope where
  signed : Descriptor
  signatures : List Signature
deriving DecidableEq

/-- `TrustRoot`. -/
structure TrustRoot where
  schema : Int
  version : Nat
  threshold : Int
  keys : List TrustKey
deriving DecidableEq

/-- `TrustRootEnvelope`. -/
structure TrustRootEnvelope where
  signed : TrustRoot
  signatures : List Signature

/-- Why metadata is refused. -/
inductive ReleaseError
  | thresholdInvalid
  | keysNotUnique
  | keyNotEd25519 (id : Text)
  | schema (schema : Int)
  | version
  | channel
  | target
  | bootstrapProtocol
  | window
  | bundleSize
  | bundleSHA256
  | bundlePath
  | signatures (valid : Nat) (threshold : Int)
  | rootSchema
  | rootVersion (current : Nat)
  | rootRollback (current candidate : Nat)
  | unreachable
  | write
deriving DecidableEq

/-- Ed25519 and the encodings: the public key that a text is, if it is base64 of one; the
    signature that a text is; whether a key accepts a signature of a payload; and how what is
    signed is written. -/
structure TrustScheme where
  PublicKey : Type
  Signature : Type
  Payload : Type
  publicKeyDecEq : DecidableEq PublicKey
  decodeKey : Text → Option PublicKey
  decodeSignature : Text → Option Signature
  verify : PublicKey → Payload → Signature → Bool
  encodeDescriptor : Descriptor → Payload
  encodeRoot : TrustRoot → Payload

instance (K : TrustScheme) : DecidableEq K.PublicKey := K.publicKeyDecEq

variable (K : TrustScheme) (trust : TrustConfig)

/-- The loop of `TrustConfig.Validate`. -/
def validateTrustKey (seen : List Text) (key : TrustKey) : Except ReleaseError (List Text) := do
  ensure (key.id ≠ [] ∧ key.publicKey ≠ [] ∧ ¬seen.any (· == key.id)) .keysNotUnique
  ensure (K.decodeKey key.publicKey).isSome (.keyNotEd25519 key.id)
  return seen ++ [key.id]

/-- `TrustConfig.Validate`. -/
def TrustConfig.validate : Except ReleaseError Unit := do
  ensure (1 ≤ trust.threshold ∧ trust.threshold ≤ trust.keys.length) .thresholdInvalid
  discard (trust.keys.foldlM (validateTrustKey K) [])

/-- A lower-case hexadecimal digit. -/
def isLowerHex (c : Char) : Bool := ('a' ≤ c && c ≤ 'f') || isDecimal c

/-- `Descriptor.Validate`. -/
def Descriptor.validate (descriptor : Descriptor) (channel protocolFloor : Text) (now : Instant) :
    Except ReleaseError Unit := do
  ensure (descriptor.schema = 1) (.schema descriptor.schema)
  ensure (parseVersionForChannel descriptor.version channel).isSome .version
  ensure (descriptor.channel = channel) .channel
  ensure descriptor.target.valid .target
  ensure (descriptor.minimumBootstrapProtocol = protocolFloor) .bootstrapProtocol
  ensure (descriptor.publishedAt ≠ zeroTime ∧ descriptor.expiresAt ≠ zeroTime ∧
    now < descriptor.expiresAt ∧ descriptor.publishedAt ≤ now + 5 * 60 * second) .window
  ensure (0 < descriptor.bundle.size ∧ descriptor.bundle.size ≤ 16 * 2 ^ 30) .bundleSize
  ensure (descriptor.bundle.sha256.length = 64 ∧ descriptor.bundle.sha256.all isLowerHex)
    .bundleSHA256
  let path := descriptor.bundle.path
  ensure (path ≠ [] ∧ '\\' ∉ path ∧ path.head? ≠ some '/') .bundlePath
  ensure (pathClean path = path ∧ path ≠ ['.'] ∧ ¬"../".toList <+: path ∧
    "releases/".toList <+: path) .bundlePath

/-- The map of the public keys of a configuration. -/
def TrustConfig.publicKey? (id : Text) : Option K.PublicKey :=
  (trust.keys.reverse.find? fun key => decide (key.id = id)).bind fun key =>
    K.decodeKey key.publicKey

/-- A key accepts the text of a signature of the payload. -/
def TrustScheme.check (payload : K.Payload) (key : K.PublicKey) (text : Text) : Bool :=
  (K.decodeSignature text).any (K.verify key payload)

/-- The identities of the configuration that signed the payload. -/
def TrustConfig.signers (payload : K.Payload) (signatures : List Signature) : List Text :=
  Threshold.signers (trust.publicKey? K) (K.check payload)
    (signatures.map fun s => (s.keyID, s.signature))

/-- `VerifyEnvelopeTarget`. -/
def verifyEnvelopeTarget (envelope : Envelope) (trust : TrustConfig) (channel protocolFloor : Text)
    (expected : Target) (now : Instant) : Except ReleaseError Unit := do
  envelope.signed.validate channel protocolFloor now
  ensure (envelope.signed.target = expected) .target
  trust.keys.forM fun key => ensure (K.decodeKey key.publicKey).isSome (.keyNotEd25519 key.id)
  let valid := trust.signers K (K.encodeDescriptor envelope.signed) envelope.signatures
  ensure (trust.threshold ≤ valid.length) (.signatures valid.length trust.threshold)

variable (root : TrustRoot)

/-- `TrustRoot.Config`. -/
def TrustRoot.config : TrustConfig := ⟨root.threshold, root.keys⟩

/-- `TrustRoot.Validate`. -/
def TrustRoot.validate : Except ReleaseError Unit := do
  ensure (root.schema = 1 ∧ root.version ≠ 0) .rootSchema
  root.config.validate K

/-- `VerifyTrustRoot`; versions have 64 bits. -/
def verifyTrustRoot (envelope : TrustRootEnvelope) (current : TrustRoot) :
    Except ReleaseError Unit := do
  current.validate K
  envelope.signed.validate K
  ensure (envelope.signed.version = (current.version + 1) % 2 ^ 64) (.rootVersion current.version)
  let valid := current.config.signers K (K.encodeRoot envelope.signed) envelope.signatures
  ensure (current.threshold ≤ valid.length) (.signatures valid.length current.threshold)

/-! ## Valid configurations -/

/-- What `TrustConfig.Validate` makes sure of. -/
structure TrustConfig.Valid (K : TrustScheme) (trust : TrustConfig) : Prop where
  pos : 1 ≤ trust.threshold
  le : trust.threshold ≤ trust.keys.length
  ids : (trust.keys.map (·.id)).Nodup
  decodes : ∀ key ∈ trust.keys, (K.decodeKey key.publicKey).isSome

theorem validateTrustKeys_ok {K : TrustScheme} {keys : List TrustKey} {seen : List Text}
    (h : keys.foldlM (validateTrustKey K) [] = .ok seen) :
    seen = keys.map (·.id) ∧ seen.Nodup ∧ ∀ key ∈ keys, (K.decodeKey key.publicKey).isSome := by
  refine foldlM_progress (fun done seen => seen = done.map (·.id) ∧ seen.Nodup ∧
    ∀ key ∈ done, (K.decodeKey key.publicKey).isSome) ?_ (by simp) h
  rintro _ key _ _ ⟨rfl, hnodup, hdecodes⟩ hstep
  simp only [validateTrustKey, steps_ok] at hstep
  obtain ⟨⟨-, -, hseen⟩, hdecode, rfl⟩ := hstep
  refine ⟨by simp, nodup_append.2 ⟨hnodup, nodup_singleton _, ?_⟩,
    forall_mem_append.2 ⟨hdecodes, forall_mem_singleton.2 hdecode⟩⟩
  rintro id hid _ hid' rfl
  exact hseen (any_eq_true.2 ⟨id, hid, beq_iff_eq.2 (mem_singleton.1 hid')⟩)

theorem TrustConfig.valid_of_validate {K : TrustScheme} {trust : TrustConfig}
    (h : trust.validate K = .ok ()) : trust.Valid K := by
  obtain ⟨_, hthreshold, h⟩ := bind_ok.1 h
  rw [ensure_ok] at hthreshold
  cases hkeys : trust.keys.foldlM (validateTrustKey K) [] with
  | error e =>
    rw [hkeys] at h
    cases h
  | ok seen =>
    obtain ⟨rfl, hnodup, hdecodes⟩ := validateTrustKeys_ok hkeys
    exact ⟨hthreshold.1, hthreshold.2, hnodup, hdecodes⟩

/-- The key of an identity is the key that the configuration gives it. -/
theorem TrustConfig.Valid.publicKey?_eq_some {K : TrustScheme} {trust : TrustConfig}
    (h : trust.Valid K) {id : Text} {publicKey : K.PublicKey} :
    trust.publicKey? K id = some publicKey ↔
      ∃ key ∈ trust.keys, key.id = id ∧ K.decodeKey key.publicKey = some publicKey := by
  rw [publicKey?, Option.bind_eq_some_iff]
  refine exists_congr fun key => ?_
  constructor
  · rintro ⟨hfind, hdecode⟩
    exact ⟨mem_reverse.1 (mem_of_find?_eq_some hfind), by simpa using find?_some hfind, hdecode⟩
  · rintro ⟨hmem, rfl, hdecode⟩
    refine ⟨?_, hdecode⟩
    cases hfind : trust.keys.reverse.find? fun other => decide (other.id = key.id) with
    | none =>
      have hnone := find?_eq_none.1 hfind key (mem_reverse.2 hmem)
      simp at hnone
    | some other =>
      have hid : other.id = key.id := by simpa using find?_some hfind
      have hother := mem_reverse.1 (mem_of_find?_eq_some hfind)
      rw [inj_on_of_nodup_map h.ids hother hmem hid]

/-! ## What is counted -/

/-- At least as many keys of the configuration as its threshold says accept a signature of the
    payload, and they are pairwise different. -/
def TrustConfig.SignedByKeys (payload : K.Payload) (signatures : List Signature) : Prop :=
  ∃ found : List K.PublicKey, found.Nodup ∧ trust.threshold ≤ found.length ∧ ∀ publicKey ∈ found,
      (∃ key ∈ trust.keys, K.decodeKey key.publicKey = some publicKey) ∧
      ∃ s ∈ signatures, K.check payload publicKey s.signature

/-- One signature is enough, or the keys of the configuration are pairwise different. -/
def TrustConfig.Countable : Prop :=
  trust.threshold = 1 ∨ (trust.keys.map fun key => K.decodeKey key.publicKey).Nodup

/-- Keys accept signatures of every payload, and no signature of another key. -/
structure TrustScheme.Ideal (K : TrustScheme) : Prop where
  complete : ∀ payload publicKey, ∃ text, K.check payload publicKey text
  exclusive : ∀ payload publicKey publicKey' text, K.check payload publicKey text →
    K.check payload publicKey' text → publicKey = publicKey'

namespace TrustConfig.Valid

variable {K : TrustScheme} {trust : TrustConfig} {payload : K.Payload} {signatures : List Signature}

section

variable (h : trust.Valid K)
include h

/-- A threshold of identities is a threshold of keys, if keys can be counted. -/
theorem signedByKeys (hcountable : trust.Countable K)
    (hsigners : trust.threshold ≤ (trust.signers K payload signatures).length) :
    trust.SignedByKeys K payload signatures := by
  have hkey : ∀ publicKey, (Threshold.Accepts (K.check payload)
      (signatures.map fun s => (s.keyID, s.signature)) publicKey ∧
        ∃ id, trust.publicKey? K id = some publicKey) →
      (∃ key ∈ trust.keys, K.decodeKey key.publicKey = some publicKey) ∧
        ∃ s ∈ signatures, K.check payload publicKey s.signature := by
    rintro publicKey ⟨⟨_, hmem, hcheck⟩, id, hid⟩
    obtain ⟨s, hs, rfl⟩ := mem_map.1 hmem
    obtain ⟨key, hkey, -, hdecode⟩ := h.publicKey?_eq_some.1 hid
    exact ⟨⟨key, hkey, hdecode⟩, s, hs, hcheck⟩
  rcases hcountable with hone | hkeys
  · have hne : trust.signers K payload signatures ≠ [] := by
      intro hnil
      rw [hnil, hone] at hsigners
      simp at hsigners
    obtain ⟨publicKey, haccepts⟩ := Threshold.key_of_signers hne
    exact ⟨[publicKey], nodup_singleton _, by simp [hone],
      forall_mem_singleton.2 (hkey publicKey haccepts)⟩
  · have hinjective : ∀ i j publicKey, trust.publicKey? K i = some publicKey →
        trust.publicKey? K j = some publicKey → i = j := by
      intro i j publicKey hi hj
      obtain ⟨key, hmem, rfl, hdecode⟩ := h.publicKey?_eq_some.1 hi
      obtain ⟨_, hmem', rfl, hdecode'⟩ := h.publicKey?_eq_some.1 hj
      rw [inj_on_of_nodup_map hkeys hmem hmem' (hdecode.trans hdecode'.symm)]
    obtain ⟨found, hnodup, hlength, hfound⟩ := Threshold.keys_of_signers hinjective
      (K.check payload) (signatures.map fun s => (s.keyID, s.signature))
    exact ⟨found, hnodup, by rw [hlength]; exact hsigners, fun publicKey hmem =>
      hkey publicKey (hfound publicKey hmem)⟩

/-- Two identities of one key, if keys cannot be counted. -/
theorem exists_same_key (hcountable : ¬trust.Countable K) :
    2 ≤ trust.threshold ∧ ∃ a ∈ trust.keys, ∃ b ∈ trust.keys, a.id ≠ b.id ∧
      K.decodeKey a.publicKey = K.decodeKey b.publicKey := by
  rw [Countable, not_or] at hcountable
  obtain ⟨_, hkeys⟩ := hcountable
  have hpos := h.pos
  refine ⟨by omega, ?_⟩
  by_contra hnone
  push Not at hnone
  refine hkeys (List.Nodup.map_on (fun a ha b hb heq => ?_) h.ids.of_map)
  by_contra hne
  exact hnone a ha b hb (fun hid => hne (inj_on_of_nodup_map h.ids ha hb hid)) heq

/-- A threshold of identities, two given ones among them. -/
theorem exists_chosen (htwo : 2 ≤ trust.threshold) {i j : Text}
    (hi : i ∈ trust.keys.map (·.id)) (hj : j ∈ trust.keys.map (·.id)) (hne : i ≠ j) :
    ∃ chosen : List Text, chosen.Nodup ∧ chosen ⊆ trust.keys.map (·.id) ∧ i ∈ chosen ∧
      j ∈ chosen ∧ (chosen.length : Int) = trust.threshold := by
  set ids := trust.keys.map (·.id) with hids
  have hj' : j ∈ ids.erase i := (mem_erase_of_ne hne.symm).2 hj
  have hnodup : (i :: j :: (ids.erase i).erase j).Nodup := by
    have hperm : ids.Perm (i :: j :: (ids.erase i).erase j) :=
      (perm_cons_erase hi).trans ((perm_cons_erase hj').cons i)
    exact hperm.nodup_iff.1 h.ids
  have hsub : ∀ n, List.Sublist (i :: j :: ((ids.erase i).erase j).take n)
      (i :: j :: (ids.erase i).erase j) := fun n => ((take_sublist n _).cons_cons j).cons_cons i
  refine ⟨i :: j :: ((ids.erase i).erase j).take (trust.threshold.toNat - 2),
    hnodup.sublist (hsub _), ?_, by simp, by simp, ?_⟩
  · refine cons_subset.2 ⟨hi, cons_subset.2 ⟨hj, fun k hk => ?_⟩⟩
    exact mem_of_mem_erase (mem_of_mem_erase (mem_of_mem_take hk))
  · have hlength : ids.length = trust.keys.length := length_map _
    have hle := h.le
    rw [length_cons, length_cons, length_take, length_erase_of_mem hj', length_erase_of_mem hi]
    omega

/-- If keys cannot be counted, there are signatures of a threshold of identities that are not
    signatures of a threshold of keys. -/
theorem exists_not_signedByKeys (hK : K.Ideal)
    (hcountable : ¬trust.Countable K) (payload : K.Payload) :
    ∃ signatures, trust.threshold ≤ (trust.signers K payload signatures).length ∧
      ¬trust.SignedByKeys K payload signatures := by
  obtain ⟨htwo, a, ha, b, hb, hne, hsame⟩ := h.exists_same_key hcountable
  obtain ⟨chosen, hnodup, hsub, hmema, hmemb, hlength⟩ := h.exists_chosen htwo
    (mem_map_of_mem ha) (mem_map_of_mem hb) hne
  have hkey : ∀ key ∈ trust.keys, trust.publicKey? K key.id = K.decodeKey key.publicKey := by
    intro key hmem
    obtain ⟨publicKey, hdecode⟩ := Option.isSome_iff_exists.1 (h.decodes key hmem)
    rw [hdecode, h.publicKey?_eq_some]
    exact ⟨key, hmem, rfl, hdecode⟩
  have hkeyed : ∀ id ∈ chosen, (trust.publicKey? K id).isSome := by
    intro id hid
    obtain ⟨key, hmem, rfl⟩ := mem_map.1 (hsub hid)
    rw [hkey key hmem]
    exact h.decodes key hmem
  obtain ⟨pairs, hcount, hfew⟩ := Threshold.exists_few_keys (hK.complete payload)
    (hK.exclusive payload) hnodup hkeyed hmema hmemb hne
    ((hkey a ha).trans (hsame.trans (hkey b hb).symm))
  -- The signatures as the envelope has them.
  have hpairs : (pairs.map fun p => (⟨p.1, p.2⟩ : Signature)).map
      (fun s => (s.keyID, s.signature)) = pairs := by
    simp [Function.comp_def]
  refine ⟨pairs.map fun p => ⟨p.1, p.2⟩, ?_, ?_⟩
  · rw [TrustConfig.signers, hpairs, hcount, hlength]
  · rintro ⟨found, hfound, hle, haccepts⟩
    have hlt := hfew found hfound fun publicKey hmem => by
      obtain ⟨-, s, hs, hcheck⟩ := haccepts publicKey hmem
      obtain ⟨p, hp, rfl⟩ := mem_map.1 hs
      exact ⟨p, hp, hcheck⟩
    omega

end

end TrustConfig.Valid

end OpenCut
