import OpenCut.Lib.Machine
import OpenCut.Sidecar.Broker

/-!
# Capabilities are not amplified

Someone holds tokens that a broker issued and asks it to delegate and to renew, as often as
they like and with whatever they like. They show only tokens that they know, since signatures
cannot be forged (`Unforged`). Then every token they come to know has the subject, role and
capabilities of a token they held, or is for a sidecar that a runtime they held a token of
delegated to (`Origin`).
-/

namespace OpenCut

open Outcome Manager

variable {S : Signing Claims}

/-- The tokens that a broker issues. -/
inductive Manager.Issued (manager : Manager S) : S.Token → Prop
  | owner {now nonce ttl token} : manager.mintOwnerToken now nonce ttl = .ok token →
      manager.Issued token
  | observer {now nonce ttl token} : manager.mintObserverToken now nonce ttl = .ok token →
      manager.Issued token
  | sidecar {now nonce subject ttl token} :
      manager.mintSidecarToken now nonce subject ttl = .ok token → manager.Issued token
  | runtime {now nonce subject ttl token} :
      manager.mintRuntimeToken now nonce subject ttl = .ok token → manager.Issued token
  | delegated {clock nonce token body response} : manager.Issued token →
      manager.handleDelegateSidecar clock nonce (some (some token)) body = .ok response →
      manager.Issued response.token
  | renewed {clock nonce sessions token body response} : manager.Issued token →
      manager.handleRenewCapability clock nonce sessions (some (some token)) body = .ok response →
      manager.Issued response.token

/-- A request that is answered with a token. -/
inductive TokenRequest (S : Signing Claims)
  | delegate (clock : Readings) (nonce : Option Text) (bearer : Option (Option S.Token))
      (body : Option DelegateRequest)
  | renew (clock : Readings) (nonce : Option Text) (sessions : Text → Bool)
      (bearer : Option (Option S.Token)) (body : Option RenewRequest)

/-- The token that is shown. -/
def TokenRequest.bearer : TokenRequest S → Option (Option S.Token)
  | .delegate _ _ bearer _ => bearer
  | .renew _ _ _ bearer _ => bearer

/-- The answer of the broker. -/
def Manager.answer (manager : Manager S) : TokenRequest S → Except Refusal (TokenResponse S)
  | .delegate clock nonce bearer body => manager.handleDelegateSidecar clock nonce bearer body
  | .renew clock nonce sessions bearer body =>
    manager.handleRenewCapability clock nonce sessions bearer body

/-- The tokens that are known after a request that was answered. -/
def Manager.learn (manager : Manager S) (known : List S.Token) (request : TokenRequest S) :
    Except Refusal (List S.Token) := do
  let response ← manager.answer request
  return response.token :: known

/-- The token that is shown is not forged. -/
def Manager.Unforged (manager : Manager S) (known : List S.Token) (request : TokenRequest S) :
    Prop :=
  ∀ token, request.bearer = some (some token) → S.Presentable manager.key known token

/-! ## What is issued -/

/-- The claims of a token: those of its manager, and for a sidecar no right to delegate. -/
structure Manager.Genuine (manager : Manager S) (token : S.Token) (claims : Claims) : Prop where
  signed : token = S.signed manager.key claims
  owns : manager.Owns claims
  sidecar : claims.role = .sidecar → .delegateSidecar ∉ claims.capabilities

namespace Manager

variable {manager : Manager S} {token : S.Token} {claims : Claims}

section

variable (h : manager.Genuine token claims)
include h

theorem Genuine.read? : S.read? manager.key token = some claims := by
  rw [h.signed, S.read?_signed]

theorem Genuine.eq_of_read? {claims' : Claims} (hread : S.read? manager.key token = some claims') :
    claims' = claims :=
  Option.mem_unique hread h.read?

/-- What a genuine token is renewed to is genuine. -/
theorem Genuine.renewed (now : Instant) (nonce : Text) (ttl : Duration) :
    manager.Genuine (S.signed manager.key (manager.claims now nonce claims.subject claims.role
        claims.capabilities ttl claims.delegatedBy))
      (manager.claims now nonce claims.subject claims.role claims.capabilities ttl
        claims.delegatedBy) :=
  ⟨rfl, owns_claims .., h.sidecar⟩

end

theorem genuine_of_mint {now : Instant} {nonce : Option Text} {subject : Text} {role : Role}
    {capabilities : List Capability} {ttl : Duration}
    (h : manager.mint now nonce subject role capabilities ttl = .ok token)
    (hsidecar : role = .sidecar → .delegateSidecar ∉ capabilities) :
    ∃ claims, manager.Genuine token claims := by
  obtain ⟨-, n, -, rfl⟩ := mintDelegated_ok.1 h
  exact ⟨_, rfl, owns_claims .., hsidecar⟩

/-- Every token that a broker issues is genuine. -/
theorem Issued.genuine (h : manager.Issued token) : ∃ claims, manager.Genuine token claims := by
  induction h with
  | owner h => exact genuine_of_mint h (by simp)
  | observer h => exact genuine_of_mint h (by simp)
  | sidecar h => exact genuine_of_mint h (by simp)
  | runtime h => exact genuine_of_mint h (by simp)
  | delegated _ h _ =>
    obtain ⟨_, claims, -, -, hsigned, howns, -, -, -, -, hcapability⟩ := handleDelegateSidecar_ok h
    exact ⟨claims, hsigned, howns, fun _ => hcapability⟩
  | renewed _ h ih =>
    obtain ⟨_, nonce, ttl, hauthorize, -, -, hsigned⟩ := handleRenewCapability_ok h
    obtain ⟨⟨_, htoken, hread⟩, -⟩ := authorize_ok.1 hauthorize
    obtain rfl := Option.some.inj (Option.some.inj htoken)
    obtain ⟨_, hgenuine⟩ := ih
    obtain rfl := hgenuine.eq_of_read? hread
    exact ⟨_, hsigned ▸ hgenuine.renewed _ nonce ttl⟩

/-- A genuine token is not accepted by another manager. -/
theorem Genuine.not_verified (h : manager.Genuine token claims) {other : Manager S}
    (hother : other.sessionID ≠ manager.sessionID ∨ other.generation ≠ manager.generation)
    (now : Instant) (required : Option Capability) (accepted : Claims) :
    other.verify now (some token) required ≠ .ok accepted := by
  intro hverify
  obtain ⟨⟨_, htoken, hread⟩, howns, -⟩ := verify_ok.1 hverify
  obtain ⟨⟩ := htoken
  rw [Signing.read?] at hread
  split at hread
  · rw [h.signed, S.decode_signed] at hread
    obtain ⟨⟩ := hread
    rcases hother with hother | hother
    · exact hother (howns.sessionID.symm.trans h.owns.sessionID)
    · exact hother (howns.generation.symm.trans h.owns.generation)
  · cases hread

end Manager

/-! ## What is obtained -/

/-- Where the claims of a token that is known come from: from a token that was held, which was
    perhaps renewed, or from a delegation by a runtime of which a token was held. -/
inductive Origin (manager : Manager S) (held : List S.Token) (claims : Claims) : Prop
  | held {token : S.Token} {original : Claims} (hmem : token ∈ held)
      (hgenuine : manager.Genuine token original) (hsubject : claims.subject = original.subject)
      (hrole : claims.role = original.role)
      (hcapabilities : claims.capabilities = original.capabilities)
  | delegated {token : S.Token} {delegator : Claims} (hmem : token ∈ held)
      (hgenuine : manager.Genuine token delegator) (hdelegator : delegator.role = .runtime)
      (hby : claims.delegatedBy = delegator.subject) (hrole : claims.role = .sidecar)
      (hother : claims.subject ≠ delegator.subject) (hreserved : claims.subject ≠ ocControl)

/-- Claims with the same subject, role, capabilities and delegator have the same origin. -/
theorem Origin.congr {manager : Manager S} {held : List S.Token} {claims claims' : Claims}
    (h : Origin manager held claims) (hsubject : claims'.subject = claims.subject)
    (hrole : claims'.role = claims.role)
    (hcapabilities : claims'.capabilities = claims.capabilities)
    (hby : claims'.delegatedBy = claims.delegatedBy) : Origin manager held claims' := by
  cases h with
  | held hmem hgenuine hs hr hc =>
    exact .held hmem hgenuine (hsubject.trans hs) (hrole.trans hr) (hcapabilities.trans hc)
  | delegated hmem hgenuine hdelegator hb hr ho hreserved =>
    exact .delegated hmem hgenuine hdelegator (hby.trans hb) (hrole.trans hr) (hsubject ▸ ho)
      (hsubject ▸ hreserved)

/-- Every token that is known is genuine, and has an origin. -/
def Traced (manager : Manager S) (held known : List S.Token) : Prop :=
  ∀ token ∈ known, ∃ claims, manager.Genuine token claims ∧ Origin manager held claims

namespace Traced

variable {manager : Manager S} {held known : List S.Token}

theorem refl (h : ∀ token ∈ held, manager.Issued token) : Traced manager held held := by
  intro token hmem
  obtain ⟨claims, hgenuine⟩ := (h token hmem).genuine
  exact ⟨claims, hgenuine, .held hmem hgenuine rfl rfl rfl⟩

/-- Whoever is authorized shows the claims of a token that is known. -/
theorem of_authorize (h : Traced manager held known) {now : Instant}
    {bearer : Option (Option S.Token)} {capability : Capability} {claims : Claims}
    (hunforged : ∀ token, bearer = some (some token) → S.Presentable manager.key known token)
    (hauthorize : manager.authorize now bearer capability = .ok claims) :
    ∃ token ∈ known, manager.Genuine token claims ∧ Origin manager held claims := by
  obtain ⟨⟨token, hbearer, hread⟩, -⟩ := authorize_ok.1 hauthorize
  have hmem := (hunforged token hbearer).mem_of_read? (fun other hother => by
    obtain ⟨claims, hgenuine, -⟩ := h other hother
    exact ⟨claims, hgenuine.signed⟩) hread
  obtain ⟨_, hgenuine, horigin⟩ := h _ hmem
  obtain rfl := hgenuine.eq_of_read? (S.read?_signed _ _)
  exact ⟨_, hmem, hgenuine, horigin⟩

/-- One more answer. -/
theorem learn {known' : List S.Token} {request : TokenRequest S} (h : Traced manager held known)
    (hunforged : manager.Unforged known request)
    (hlearn : manager.learn known request = .ok known') :
    Traced manager held known' := by
  obtain ⟨_, hanswer, hlearn⟩ := bind_ok.1 hlearn
  obtain rfl := pure_ok.1 hlearn
  refine List.forall_mem_cons.2 ⟨?_, h⟩
  cases request with
  | delegate =>
    obtain ⟨_, claims, hauthorize, hrole, hsigned, howns, hsidecar, hby, hother, hreserved,
      hcapability⟩ := handleDelegateSidecar_ok hanswer
    obtain ⟨_, -, hgenuine, horigin⟩ := h.of_authorize hunforged hauthorize
    refine ⟨claims, ⟨hsigned, howns, fun _ => hcapability⟩, ?_⟩
    cases horigin with
    | held hmem hheld hs hr _ =>
      exact .delegated hmem hheld (hr.symm.trans hrole) (hby.trans hs) hsidecar (hs ▸ hother)
        hreserved
    | delegated _ _ _ _ hr _ _ =>
      -- A token that was obtained by delegation is a sidecar's, and no sidecar delegates.
      rw [hrole] at hr
      cases hr
  | renew clock nonce =>
    obtain ⟨_, nonce, ttl, hauthorize, -, -, hsigned⟩ := handleRenewCapability_ok hanswer
    obtain ⟨_, -, hgenuine, horigin⟩ := h.of_authorize hunforged hauthorize
    refine ⟨_, hsigned ▸ hgenuine.renewed clock.minted nonce ttl, ?_⟩
    exact horigin.congr rfl rfl rfl rfl

end Traced

/-- Capabilities are not amplified. Whoever holds tokens that a broker issued and asks it for
    others comes to know only tokens of the subject, role and capabilities of a token they held,
    and tokens of sidecars that a runtime delegated to, which are neither the runtime itself nor
    `oc-control`. No sidecar's token may delegate. A token of another role than the runtime's
    is answered with no token for another subject. No token is accepted in another session or
    generation. -/
theorem capabilities_not_amplified {manager : Manager S} {held known : List S.Token}
    (hheld : ∀ token ∈ held, manager.Issued token)
    (hrun : Machine.Reaches manager.learn manager.Unforged held known) :
    (∀ token ∈ known, ∀ now required claims,
      manager.verify now (some token) required = .ok claims →
        Origin manager held claims ∧
        (claims.role = .sidecar → .delegateSidecar ∉ claims.capabilities)) ∧
    (∀ request response, manager.Unforged known request → manager.answer request = .ok response →
      ∃ token shown obtained, request.bearer = some (some token) ∧
        S.read? manager.key token = some shown ∧
        S.read? manager.key response.token = some obtained ∧
        (shown.role ≠ .runtime → obtained.subject = shown.subject)) ∧
    ∀ token ∈ known, ∀ other : Manager S,
      other.sessionID ≠ manager.sessionID ∨ other.generation ≠ manager.generation →
        ∀ now required claims, other.verify now (some token) required ≠ .ok claims := by
  have htraced : Traced manager held known :=
    hrun.invariant (Traced manager held) (fun _ _ _ hunforged h hlearn => h.learn hunforged hlearn)
      (.refl hheld)
  refine ⟨fun token hmem now required claims hverify => ?_,
    fun request response hunforged hanswer => ?_,
    fun token hmem other hother now required claims => ?_⟩
  · obtain ⟨claims', hgenuine, horigin⟩ := htraced token hmem
    obtain ⟨⟨_, htoken, hread⟩, -⟩ := verify_ok.1 hverify
    obtain ⟨⟩ := htoken
    obtain rfl := hgenuine.eq_of_read? hread
    exact ⟨horigin, hgenuine.sidecar⟩
  · cases request with
    | delegate =>
      obtain ⟨delegator, claims, hauthorize, hrole, hsigned, -⟩ := handleDelegateSidecar_ok hanswer
      obtain ⟨⟨token, hbearer, hread⟩, -⟩ := authorize_ok.1 hauthorize
      exact ⟨token, delegator, claims, hbearer, hread, by rw [hsigned, S.read?_signed],
        fun hother => absurd hrole hother⟩
    | renew clock nonce =>
      obtain ⟨claims, nonce, ttl, hauthorize, -, -, hsigned⟩ := handleRenewCapability_ok hanswer
      obtain ⟨⟨token, hbearer, hread⟩, -⟩ := authorize_ok.1 hauthorize
      exact ⟨token, claims, manager.claims clock.minted nonce claims.subject claims.role
        claims.capabilities ttl claims.delegatedBy, hbearer, hread, by rw [hsigned, S.read?_signed],
        fun _ => rfl⟩
  · obtain ⟨_, hgenuine, -⟩ := htraced token hmem
    exact hgenuine.not_verified hother now required claims

/-- Claims that are signed by writing the key beside them. -/
def sampleSigning : Signing Claims where
  Key := Nat
  Payload := Claims
  Signature := Nat × Claims
  signatureDecEq := inferInstance
  encode := id
  decode := some
  decode_encode := fun _ => rfl
  sign := Prod.mk

/-- A broker of the third generation. -/
def sampleManager : Manager sampleSigning := ⟨(7 : Nat), ['s'], 3⟩

/-- The token of a runtime for a week. -/
def sampleRuntime : sampleSigning.Token :=
  sampleSigning.signed sampleManager.key (sampleManager.claims 0 ['n'] "payload".toList .runtime
    [.runtimeReady, .lifecycle, .observe, .delegateSidecar, .updateTransition]
    maximumSessionTokenTTL [])

/-- The token of a sidecar that the runtime delegates to for a minute. -/
def sampleSidecar : sampleSigning.Token :=
  sampleSigning.signed sampleManager.key (sampleManager.claims 0 ['m'] "api".toList .sidecar
    [.runtimeReady, .lifecycle, .observe] (60 * second) "payload".toList)

theorem capabilities_not_amplified_sample :
    Machine.Reaches sampleManager.learn sampleManager.Unforged [sampleRuntime]
      [sampleSidecar, sampleRuntime] ∧
    ∀ token ∈ [sampleSidecar, sampleRuntime], ∀ now required claims,
      sampleManager.verify now (some token) required = .ok claims →
        Origin sampleManager [sampleRuntime] claims := by
  have hissued : ∀ token ∈ [sampleRuntime], sampleManager.Issued token := by
    intro token hmem
    obtain rfl := List.mem_singleton.1 hmem
    have hmint : sampleManager.mintRuntimeToken 0 (some ['n']) "payload".toList
        maximumSessionTokenTTL = .ok sampleRuntime := rfl
    exact .runtime hmint
  have hrun : Machine.Reaches sampleManager.learn sampleManager.Unforged [sampleRuntime]
      [sampleSidecar, sampleRuntime] := by
    refine (Machine.Reaches.refl _).serve_ok (r := .delegate ⟨0, 0, 0, 0⟩ (some ['m'])
      (some (some sampleRuntime)) (some ⟨"api".toList, 60, []⟩)) ?_ ?_
    · intro token htoken
      obtain rfl := Option.some.inj (Option.some.inj htoken)
      exact fun _ => ⟨_, by simp, rfl⟩
    · rfl
  exact ⟨hrun, fun token hmem now required claims hverify =>
    ((capabilities_not_amplified hissued hrun).1 token hmem now required claims hverify).1⟩

end OpenCut
