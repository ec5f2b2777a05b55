import OpenCut.Release.Metadata

/-!
# The chain of trust roots

`internal/update/trust.go`: the trust root that a cell has stored is replaced only by a root
that the stored one accepts. So the roots that were ever stored are the versions 1, 2, 3, …,
each accepted by the one before (`TrustStore.Chained`).

What a root or a trust configuration accepts is signed by a threshold of its keys exactly if
its keys can be counted (`trust_thresholds_count_keys`).
-/

namespace OpenCut

open Outcome List

/-! ## The model -/

variable {K : TrustScheme} {root current : TrustRoot}

/-- The trust root file of a cell, and everything that was ever written to it. -/
structure TrustStore where
  file : Option TrustRoot
  persisted : List TrustRoot

/-- `atomicfile.WriteJSON` of the trust root file. -/
def TrustStore.write (store : TrustStore) (root : TrustRoot) : TrustStore :=
  ⟨some root, store.persisted ++ [root]⟩

/-- What an origin answers when it is asked for its root. -/
inductive RootResponse
  | failed
  | notFound
  | found (envelope : TrustRootEnvelope)

/-- `InitialTrustRoot`. -/
def initialTrustRoot (K : TrustScheme) (trust : TrustConfig) : Except ReleaseError TrustRoot := do
  trust.validate K
  return ⟨1, 1, trust.threshold, trust.keys⟩

/-- `ensureTrustRoot`; `writes` if the file can be written. -/
def ensureTrustRoot (K : TrustScheme) (store : TrustStore) (initial : TrustConfig) (writes : Bool) :
    Except ReleaseError (TrustRoot × TrustStore) := do
  match store.file with
  | none =>
    let root ← initialTrustRoot K initial
    ensure writes .write
    return (root, store.write root)
  | some root =>
    root.validate K
    return (root, store)

/-- `rotateTrustRoot`; `writes` if the file can be written. -/
def rotateTrustRoot (K : TrustScheme) (store : TrustStore) (current : TrustRoot)
    (response : RootResponse) (writes : Bool) : Except ReleaseError (TrustRoot × TrustStore) := do
  match response with
  | .failed => throw .unreachable
  | .notFound => return (current, store)
  | .found envelope =>
    if envelope.signed.version = current.version then return (current, store)
    ensure (current.version ≤ envelope.signed.version)
      (.rootRollback current.version envelope.signed.version)
    verifyTrustRoot K envelope current
    ensure writes .write
    return (envelope.signed, store.write envelope.signed)

/-- What one visit to an origin depends on. -/
structure RootVisit where
  initial : TrustConfig
  initialWrites : Bool
  response : RootResponse
  rotatedWrites : Bool

/-- The trust root part of `installFromOrigin`. What `ensureTrustRoot` has written stays when
    the rotation fails. -/
def TrustStore.visit (K : TrustScheme) (store : TrustStore) (visit : RootVisit) : TrustStore :=
  match ensureTrustRoot K store visit.initial visit.initialWrites with
  | .error _ => store
  | .ok (current, store) =>
    match rotateTrustRoot K store current visit.response visit.rotatedWrites with
    | .error _ => store
    | .ok (_, store) => store

variable {writes : Bool}

/-- The root that is used is in the file then, and a root that was there stays. -/
theorem ensureTrustRoot_file {store store' : TrustStore} {initial : TrustConfig}
    (h : ensureTrustRoot K store initial writes = .ok (root, store')) :
    store'.file = some root ∧ ∀ current, store.file = some current → store' = store := by
  rw [ensureTrustRoot] at h
  split at h
  · next hnone =>
    simp only [initialTrustRoot, steps_ok, Prod.mk.injEq] at h
    obtain ⟨_, ⟨_, -, rfl⟩, -, rfl, rfl⟩ := h
    refine ⟨rfl, fun current hcurrent => ?_⟩
    rw [hnone] at hcurrent
    cases hcurrent
  · next hfile =>
    simp only [steps_ok, Prod.mk.injEq] at h
    obtain ⟨-, rfl, rfl⟩ := h
    exact ⟨hfile, fun _ _ => rfl⟩

theorem rotateTrustRoot_file {store store' : TrustStore} {response : RootResponse}
    (hfile : store.file = some current)
    (h : rotateTrustRoot K store current response writes = .ok (root, store')) :
    store'.file = some root := by
  cases response with
  | failed => cases h
  | notFound =>
    rw [rotateTrustRoot, pure_ok, Prod.mk.injEq] at h
    obtain ⟨rfl, rfl⟩ := h
    exact hfile
  | found =>
    rw [rotateTrustRoot] at h
    split at h
    · rw [pure_ok, Prod.mk.injEq] at h
      obtain ⟨rfl, rfl⟩ := h
      exact hfile
    · simp only [steps_ok, Prod.mk.injEq] at h
      obtain ⟨-, -, -, rfl, rfl⟩ := h
      rfl

/-! ## More signatures -/

theorem TrustConfig.length_signers_mono (trust : TrustConfig) (payload : K.Payload)
    {signatures signatures' : List Signature} (h : signatures ⊆ signatures') :
    (trust.signers K payload signatures).length ≤ (trust.signers K payload signatures').length :=
  Threshold.length_signers_mono (map_subset _ h)

theorem verifyEnvelopeTarget_ok {envelope : Envelope} {trust : TrustConfig}
    {channel protocolFloor : Text} {expected : Target} {now : Instant} :
    verifyEnvelopeTarget K envelope trust channel protocolFloor expected now = .ok () ↔
      envelope.signed.validate channel protocolFloor now = .ok () ∧
      envelope.signed.target = expected ∧
      (∀ key ∈ trust.keys, (K.decodeKey key.publicKey).isSome) ∧
      trust.threshold ≤
        (trust.signers K (K.encodeDescriptor envelope.signed) envelope.signatures).length := by
  simp only [verifyEnvelopeTarget, steps_ok, forM_ok]

variable {envelope : TrustRootEnvelope}

theorem verifyTrustRoot_ok : verifyTrustRoot K envelope current = .ok () ↔
      current.validate K = .ok () ∧ envelope.signed.validate K = .ok () ∧
      envelope.signed.version = (current.version + 1) % 2 ^ 64 ∧
      current.threshold ≤ (current.config.signers K (K.encodeRoot envelope.signed)
        envelope.signatures).length := by
  simp only [verifyTrustRoot, steps_ok]

/-- More signatures do not make a root or an envelope unacceptable. -/
theorem verify_mono {signatures signatures' : List Signature} (h : signatures ⊆ signatures') :
    (∀ signed trust channel protocolFloor expected now,
      verifyEnvelopeTarget K ⟨signed, signatures⟩ trust channel protocolFloor expected now =
        .ok () →
      verifyEnvelopeTarget K ⟨signed, signatures'⟩ trust channel protocolFloor expected now =
        .ok ()) ∧
    ∀ signed current, verifyTrustRoot K ⟨signed, signatures⟩ current = .ok () →
      verifyTrustRoot K ⟨signed, signatures'⟩ current = .ok () := by
  refine ⟨fun signed trust channel protocolFloor expected now hverify => ?_,
    fun signed current hverify => ?_⟩
  · rw [verifyEnvelopeTarget_ok] at hverify ⊢
    obtain ⟨hvalid, htarget, hkeys, hthreshold⟩ := hverify
    refine ⟨hvalid, htarget, hkeys, hthreshold.trans ?_⟩
    exact_mod_cast trust.length_signers_mono _ h
  · rw [verifyTrustRoot_ok] at hverify ⊢
    obtain ⟨hcurrent, hvalid, hversion, hthreshold⟩ := hverify
    refine ⟨hcurrent, hvalid, hversion, hthreshold.trans ?_⟩
    exact_mod_cast current.config.length_signers_mono _ h

/-! ## The chain -/

/-- The root is accepted by the one before it, in the sense of signatures by a threshold of
    keys, if these can be counted. -/
def TrustRoot.Accepts (K : TrustScheme) (current next : TrustRoot) : Prop :=
  ∃ envelope, envelope.signed = next ∧ verifyTrustRoot K envelope current = .ok () ∧
    (current.config.Countable K →
      current.config.SignedByKeys K (K.encodeRoot next) envelope.signatures)

theorem TrustRoot.valid_config (h : root.validate K = .ok ()) :
    root.version ≠ 0 ∧ root.config.Valid K := by
  obtain ⟨_, hschema, hvalid⟩ := bind_ok.1 h
  exact ⟨(ensure_ok.1 hschema).2, TrustConfig.valid_of_validate hvalid⟩

theorem TrustRoot.accepts_of_verify (h : verifyTrustRoot K envelope current = .ok ()) :
    current.Accepts K envelope.signed := by
  refine ⟨envelope, rfl, h, fun hcountable => ?_⟩
  obtain ⟨hcurrent, -, -, hthreshold⟩ := verifyTrustRoot_ok.1 h
  exact (TrustRoot.valid_config hcurrent).2.signedByKeys hcountable hthreshold

/-- The roots that were stored have the versions 1, 2, 3, …, each accepted by the one before;
    the last one is in the file. -/
structure TrustStore.Chained (K : TrustScheme) (store : TrustStore) : Prop where
  file : store.file = store.persisted.getLast?
  versions : store.persisted.map (·.version) = List.range' 1 store.persisted.length
  bounded : ∀ root ∈ store.persisted, root.version < 2 ^ 64
  accepted : store.persisted.IsChain (TrustRoot.Accepts K)

namespace TrustStore.Chained

variable {K : TrustScheme} {store store' : TrustStore}

/-- The first root. -/
theorem write_first (hnone : store.file = none) {root : TrustRoot} (h : store.Chained K)
    (hversion : root.version = 1) : (store.write root).Chained K := by
  have hnil : store.persisted = [] := getLast?_eq_none_iff.1 (h.file ▸ hnone)
  refine ⟨?_, ?_, ?_, ?_⟩ <;> simp [write, hnil, hversion]

section

variable (h : store.Chained K)
include h

/-- The version of the root in the file is how many were stored. -/
theorem version_eq {current : TrustRoot} (hfile : store.file = some current) :
    current.version = store.persisted.length := by
  have hlast : (store.persisted.map (·.version)).getLast? = some current.version := by
    rw [getLast?_map, ← h.file, hfile]
    rfl
  have hne : store.persisted.length ≠ 0 := by
    intro hzero
    rw [h.file, length_eq_zero_iff.1 hzero] at hfile
    cases hfile
  rw [h.versions, getLast?_range'] at hlast
  simp only [hne, if_false, Option.some.injEq] at hlast
  omega

/-- One more root. -/
theorem write_next {current : TrustRoot} (hfile : store.file = some current)
    (hverify : verifyTrustRoot K envelope current = .ok ()) :
    (store.write envelope.signed).Chained K := by
  obtain ⟨-, hvalid, hversion, -⟩ := verifyTrustRoot_ok.1 hverify
  have hpos := (TrustRoot.valid_config hvalid).1
  have hcurrent := h.version_eq hfile
  have hlast : store.persisted.getLast? = some current := h.file ▸ hfile
  have hbound := h.bounded current (mem_of_getLast? hlast)
  -- The version does not wrap around: it would be zero, which is not valid.
  have hnext : envelope.signed.version = store.persisted.length + 1 := by
    rw [hversion] at hpos ⊢
    rw [← hcurrent]
    have hwrap : current.version + 1 ≠ 2 ^ 64 := by
      intro heq
      rw [heq] at hpos
      exact hpos (Nat.mod_self _)
    exact Nat.mod_eq_of_lt (by omega)
  refine ⟨by simp [write], ?_, ?_, ?_⟩
  · rw [write, map_append, h.versions, length_append, length_singleton,
      range'_concat, map_singleton, hnext, Nat.add_comm 1]
    simp
  · refine forall_mem_append.2 ⟨h.bounded, forall_mem_singleton.2 ?_⟩
    rw [hversion]
    exact Nat.mod_lt _ (by decide)
  · refine isChain_append.2 ⟨h.accepted, isChain_singleton _, ?_⟩
    rintro _ hlast' _ hfirst
    obtain rfl := Option.mem_unique hlast hlast'
    obtain ⟨⟩ := hfirst
    exact TrustRoot.accepts_of_verify hverify

variable {writes : Bool}

theorem ensureTrustRoot {initial : TrustConfig} {root : TrustRoot}
    (hensure : OpenCut.ensureTrustRoot K store initial writes = .ok (root, store')) :
    store'.Chained K ∧ store'.file = some root := by
  refine ⟨?_, (ensureTrustRoot_file hensure).1⟩
  rw [OpenCut.ensureTrustRoot] at hensure
  split at hensure
  · next hnone =>
    simp only [initialTrustRoot, steps_ok, Prod.mk.injEq] at hensure
    obtain ⟨_, ⟨_, -, rfl⟩, -, rfl, rfl⟩ := hensure
    exact h.write_first hnone rfl
  · simp only [steps_ok, Prod.mk.injEq] at hensure
    obtain ⟨-, rfl, rfl⟩ := hensure
    exact h

theorem rotateTrustRoot {current root : TrustRoot} (hfile : store.file = some current)
    {response : RootResponse}
    (hrotate : OpenCut.rotateTrustRoot K store current response writes = .ok (root, store')) :
    store'.Chained K := by
  cases response with
  | failed => cases hrotate
  | notFound =>
    rw [OpenCut.rotateTrustRoot, pure_ok, Prod.mk.injEq] at hrotate
    exact hrotate.2 ▸ h
  | found =>
    rw [OpenCut.rotateTrustRoot] at hrotate
    split at hrotate
    · rw [pure_ok, Prod.mk.injEq] at hrotate
      exact hrotate.2 ▸ h
    · simp only [steps_ok, Prod.mk.injEq] at hrotate
      obtain ⟨-, hverify, -, -, rfl⟩ := hrotate
      exact h.write_next hfile hverify

theorem visit (visit : RootVisit) : (store.visit K visit).Chained K := by
  rw [TrustStore.visit]
  split
  · exact h
  · next current store' hensure =>
    obtain ⟨hchained, hfile⟩ := h.ensureTrustRoot hensure
    split
    · exact hchained
    · next hrotate => exact hchained.rotateTrustRoot hfile hrotate

end

end TrustStore.Chained

/-! ## Thresholds -/

/-- Metadata of a release that is valid for the channel `beta`. -/
def sampleDescriptor : Descriptor where
  schema := 1
  channel := "beta".toList
  version := "1.2.0-beta.3".toList
  target := ⟨.mac, .arm64⟩
  bundle := ⟨"releases/a".toList, 1, List.replicate 64 'a'⟩
  minimumBootstrapProtocol := ['p']
  publishedAt := 0
  expiresAt := second

/-- Thresholds count different keys exactly if one signature is enough or the keys of the
    configuration differ: then every envelope and every root that is accepted is signed by a
    threshold of keys; and if it is so for every envelope, then the keys can be counted,
    provided that every key can sign and accepts its own signatures only. In any case, more
    signatures never hurt, and the stored roots are a chain. -/
theorem trust_thresholds_count_keys {trust : TrustConfig} (hvalid : trust.validate K = .ok ()) :
    (trust.Countable K →
      (∀ envelope channel protocolFloor expected now,
        verifyEnvelopeTarget K envelope trust channel protocolFloor expected now = .ok () →
          trust.SignedByKeys K (K.encodeDescriptor envelope.signed) envelope.signatures) ∧
      ∀ envelope current, current.config = trust → verifyTrustRoot K envelope current = .ok () →
        trust.SignedByKeys K (K.encodeRoot envelope.signed) envelope.signatures) ∧
    (K.Ideal →
      (∀ envelope channel protocolFloor expected now,
        verifyEnvelopeTarget K envelope trust channel protocolFloor expected now = .ok () →
          trust.SignedByKeys K (K.encodeDescriptor envelope.signed) envelope.signatures) →
      trust.Countable K) ∧
    (∀ signatures signatures' : List Signature, signatures ⊆ signatures' →
      (∀ signed channel protocolFloor expected now,
        verifyEnvelopeTarget K ⟨signed, signatures⟩ trust channel protocolFloor expected now =
          .ok () →
        verifyEnvelopeTarget K ⟨signed, signatures'⟩ trust channel protocolFloor expected now =
          .ok ()) ∧
      ∀ signed current, verifyTrustRoot K ⟨signed, signatures⟩ current = .ok () →
        verifyTrustRoot K ⟨signed, signatures'⟩ current = .ok ()) ∧
    ∀ visits : List RootVisit, ∀ store, store = visits.foldl (TrustStore.visit K) ⟨none, []⟩ →
      store.persisted.map (·.version) = List.range' 1 store.persisted.length ∧
      store.persisted.IsChain (TrustRoot.Accepts K) := by
  have htrust := TrustConfig.valid_of_validate hvalid
  refine ⟨fun hcountable => ⟨?_, ?_⟩, fun hK hall => ?_, fun signatures signatures' hsub => ?_, ?_⟩
  · intro envelope channel protocolFloor expected now hverify
    exact htrust.signedByKeys hcountable (verifyEnvelopeTarget_ok.1 hverify).2.2.2
  · rintro _ _ rfl hverify
    exact htrust.signedByKeys hcountable (verifyTrustRoot_ok.1 hverify).2.2.2
  · by_contra hcountable
    obtain ⟨signatures, hthreshold, hnot⟩ := htrust.exists_not_signedByKeys hK hcountable
      (K.encodeDescriptor sampleDescriptor)
    have hsample : sampleDescriptor.validate "beta".toList ['p'] 0 = .ok () := by decide +kernel
    exact hnot (hall ⟨sampleDescriptor, signatures⟩ _ _ ⟨.mac, .arm64⟩ 0
      (verifyEnvelopeTarget_ok.2 ⟨hsample, rfl, htrust.decodes, hthreshold⟩))
  · obtain ⟨henvelope, hroot⟩ := verify_mono (K := K) hsub
    exact ⟨fun signed => henvelope signed trust, hroot⟩
  · rintro visits _ rfl
    have hchained : (visits.foldl (TrustStore.visit K) ⟨none, []⟩).Chained K :=
      foldlRecOn visits (TrustStore.visit K)
        ⟨rfl, rfl, by simp, isChain_nil⟩ fun _ h visit _ => h.visit visit
    exact ⟨hchained.versions, hchained.accepted⟩

/-- Keys that sign with their own text. -/
def sampleScheme : TrustScheme where
  PublicKey := Text
  Signature := Text
  Payload := Descriptor ⊕ TrustRoot
  publicKeyDecEq := inferInstance
  decodeKey := some
  decodeSignature := some
  verify := fun publicKey _ signature => decide (signature = publicKey)
  encodeDescriptor := .inl
  encodeRoot := .inr

theorem trust_thresholds_count_keys_sample :
    TrustConfig.validate sampleScheme ⟨2, [⟨['a'], ['k']⟩, ⟨['b'], ['l']⟩]⟩ = .ok () ∧
    verifyEnvelopeTarget sampleScheme ⟨sampleDescriptor, [⟨['b'], ['l']⟩, ⟨['a'], ['k']⟩]⟩
      ⟨2, [⟨['a'], ['k']⟩, ⟨['b'], ['l']⟩]⟩ "beta".toList ['p'] ⟨.mac, .arm64⟩ 0 = .ok () ∧
    TrustConfig.SignedByKeys sampleScheme ⟨2, [⟨['a'], ['k']⟩, ⟨['b'], ['l']⟩]⟩
      (sampleScheme.encodeDescriptor sampleDescriptor) [⟨['b'], ['l']⟩, ⟨['a'], ['k']⟩] := by
  have hvalid : TrustConfig.validate sampleScheme ⟨2, [⟨['a'], ['k']⟩, ⟨['b'], ['l']⟩]⟩ =
      .ok () := by
    decide +kernel
  have hverify : verifyEnvelopeTarget sampleScheme
      ⟨sampleDescriptor, [⟨['b'], ['l']⟩, ⟨['a'], ['k']⟩]⟩ ⟨2, [⟨['a'], ['k']⟩, ⟨['b'], ['l']⟩]⟩
      "beta".toList ['p'] ⟨.mac, .arm64⟩ 0 = .ok () := by
    decide +kernel
  have hkeys : TrustConfig.Countable sampleScheme ⟨2, [⟨['a'], ['k']⟩, ⟨['b'], ['l']⟩]⟩ :=
    .inr (by decide)
  exact ⟨hvalid, hverify, ((trust_thresholds_count_keys hvalid).1 hkeys).1 _ _ _ _ _ hverify⟩

/-- A configuration that wants two keys and has one key twice accepts what that key alone has
    signed. -/
theorem one_key_counts_twice :
    TrustConfig.validate sampleScheme ⟨2, [⟨['a'], ['k']⟩, ⟨['b'], ['k']⟩]⟩ = .ok () ∧
    verifyEnvelopeTarget sampleScheme ⟨sampleDescriptor, [⟨['a'], ['k']⟩, ⟨['b'], ['k']⟩]⟩
      ⟨2, [⟨['a'], ['k']⟩, ⟨['b'], ['k']⟩]⟩ "beta".toList ['p'] ⟨.mac, .arm64⟩ 0 = .ok () ∧
    ¬TrustConfig.SignedByKeys sampleScheme ⟨2, [⟨['a'], ['k']⟩, ⟨['b'], ['k']⟩]⟩
      (sampleScheme.encodeDescriptor sampleDescriptor) [⟨['a'], ['k']⟩, ⟨['b'], ['k']⟩] := by
  refine ⟨by decide +kernel, by decide +kernel, ?_⟩
  rintro ⟨found, hnodup, hlength, hfound⟩
  have hsub : found ⊆ [['k']] := by
    intro publicKey hmem
    obtain ⟨⟨key, hkey, hdecode⟩, -⟩ := hfound publicKey hmem
    obtain ⟨⟩ := hdecode
    rcases mem_cons.1 hkey with rfl | hkey
    · exact mem_singleton.2 rfl
    · rw [mem_singleton.1 hkey]
      exact mem_singleton.2 rfl
  have hle := (hnodup.subperm hsub).length_le
  change found.length ≤ 1 at hle
  change (2 : Int) ≤ found.length at hlength
  omega

end OpenCut
