import OpenCut.Domain.Clock
import OpenCut.Domain.Edit
import OpenCut.Lib.Outcome
import OpenCut.Lib.Signing

/-!
# Capability tokens

`sidecar/auth/token.go` and the roles and capabilities of `sidecar/protocol`. A broker has a
token manager, which signs claims with its own key; a token is accepted if the manager signed
it, for its own session and generation, and it has not expired (`Manager.verify_ok`).

How claims are written and signed is a parameter (`Signing Claims`). The times of claims are
whole seconds.
-/

namespace OpenCut

open Outcome

/-- `protocol.Role`. -/
inductive Role
  | owner
  | runtime
  | sidecar
  | observer
deriving DecidableEq

/-- `protocol.Capability`; a request may name any text. -/
inductive Capability
  | observe
  | runtimeReady
  | lifecycle
  | updateTransition
  | delegateSidecar
  | other (name : Text)
deriving DecidableEq

/-- `TokenVersion`. -/
def tokenVersion : Int := 1

/-- `Claims`. -/
structure Claims where
  version : Int
  sessionID : Text
  generation : Nat
  subject : Text
  role : Role
  capabilities : List Capability
  issuedAt : Int
  expiresAt : Int
  nonce : Text
  delegatedBy : Text
deriving DecidableEq

/-- `Claims.Has`. -/
def Claims.has (claims : Claims) (capability : Capability) : Bool :=
  claims.capabilities.any (· == capability)

/-- Why no token is minted, or a token is refused. -/
inductive TokenError
  | subjectAndTTL
  | random
  | malformed
  | signature
  | claims
  | generation
  | expired
  | capability

/-- `Manager`; its clock is given with each call. -/
structure Manager (S : Signing Claims) where
  key : S.Key
  sessionID : Text
  generation : Nat

namespace Manager

variable {S : Signing Claims} (manager : Manager S) (now : Instant)

/-- The claims of a token that is minted. -/
def claims (nonce subject : Text) (role : Role) (capabilities : List Capability)
    (ttl : Duration) (delegatedBy : Text) : Claims where
  version := tokenVersion
  sessionID := manager.sessionID
  generation := manager.generation
  subject := subject
  role := role
  capabilities := capabilities
  issuedAt := unix now
  expiresAt := unix (now + ttl)
  nonce := nonce
  delegatedBy := delegatedBy

variable (nonce : Option Text) (subject : Text)

/-- `Manager.MintDelegated`; there is no nonce if the system has no random bytes. -/
def mintDelegated (role : Role)
    (capabilities : List Capability) (ttl : Duration) (delegatedBy : Text) :
    Except TokenError S.Token := do
  ensure (subject ≠ [] ∧ 0 < ttl) .subjectAndTTL
  let nonce ← need nonce .random
  return S.signed manager.key (manager.claims now nonce subject role capabilities ttl delegatedBy)

/-- `Manager.Mint`. -/
def mint (role : Role)
    (capabilities : List Capability) (ttl : Duration) : Except TokenError S.Token :=
  manager.mintDelegated now nonce subject role capabilities ttl []

/-- `Manager.Verify`, of the token that a text is, if it is one. -/
def verify (token : Option S.Token) (required : Option Capability) : Except TokenError Claims := do
  let token ← need token .malformed
  ensure (token.signature = S.sign manager.key token.payload) .signature
  let claims ← need (S.decode token.payload) .claims
  ensure (claims.version = tokenVersion ∧ claims.sessionID = manager.sessionID ∧
    claims.generation = manager.generation) .generation
  ensure (unix now < claims.expiresAt ∧ claims.issuedAt ≤ unix now + 30) .expired
  ensure (required.all claims.has) .capability
  return claims

/-- The claims are of the session and generation of the manager. -/
structure Owns (claims : Claims) : Prop where
  version : claims.version = tokenVersion
  sessionID : claims.sessionID = manager.sessionID
  generation : claims.generation = manager.generation

variable {manager}

theorem owns_claims (nonce subject : Text) (role : Role)
    (capabilities : List Capability) (ttl : Duration) (delegatedBy : Text) :
    manager.Owns (manager.claims now nonce subject role capabilities ttl delegatedBy) :=
  ⟨rfl, rfl, rfl⟩

theorem mintDelegated_ok {now : Instant} {nonce : Option Text} {subject : Text} {role : Role}
    {capabilities : List Capability} {ttl : Duration} {delegatedBy : Text} {token : S.Token} :
    manager.mintDelegated now nonce subject role capabilities ttl delegatedBy = .ok token ↔
      (subject ≠ [] ∧ 0 < ttl) ∧ ∃ n, nonce = some n ∧ S.signed manager.key
        (manager.claims now n subject role capabilities ttl delegatedBy) = token := by
  simp only [mintDelegated, steps_ok]

theorem verify_ok {now : Instant} {token : Option S.Token} {required : Option Capability}
    {claims : Claims} :
    manager.verify now token required = .ok claims ↔
      (∃ t, token = some t ∧ S.read? manager.key t = some claims) ∧ manager.Owns claims ∧
      unix now < claims.expiresAt ∧ claims.issuedAt ≤ unix now + 30 ∧ required.all claims.has := by
  simp only [verify, steps_ok, Signing.read?]
  constructor
  · rintro ⟨t, rfl, hsignature, _, hdecode, ⟨hv, hs, hg⟩, ⟨he, hi⟩, hr, rfl⟩
    exact ⟨⟨t, rfl, by rw [if_pos hsignature, hdecode]⟩, ⟨hv, hs, hg⟩, he, hi, hr⟩
  · rintro ⟨⟨t, rfl, hread⟩, ⟨hv, hs, hg⟩, he, hi, hr⟩
    split at hread
    · next hsignature =>
      exact ⟨t, rfl, hsignature, claims, hread, ⟨hv, hs, hg⟩, ⟨he, hi⟩, hr, rfl⟩
    · cases hread

end Manager

end OpenCut
