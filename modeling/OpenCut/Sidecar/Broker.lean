import OpenCut.Sidecar.Token

/-!
# Tokens from the broker

`sidecar/broker/broker.go`, as far as it issues tokens: the tokens that the broker mints for
itself and for the launcher, and the two requests that answer with a token. A runtime may
delegate: it is given a token for a sidecar of another subject (`handleDelegateSidecar_ok`). A
registered runtime or sidecar may renew: it is given its own claims again
(`handleRenewCapability_ok`).

A handler reads the clock several times; the readings are given with the request, and so are
the subjects that are registered when it asks for them.
-/

namespace OpenCut

open Outcome

/-- `time.Duration(seconds) * time.Second`, which wraps around. -/
def durationOfSeconds (seconds : Int) : Duration := (seconds * second).bmod (2 ^ 64)

/-- `Time.Sub`, which stops at the longest durations. -/
def timeSub (t t' : Instant) : Duration := max (-2 ^ 63) (min (t - t') (2 ^ 63 - 1))

/-- `maximumSessionTokenTTL`. -/
def maximumSessionTokenTTL : Duration := 7 * 24 * 3600 * second

/-- The subject of the token of the owner. -/
def ocControl : Text := "oc-control".toList

/-- What `writeError` answers. -/
structure Refusal where
  status : Nat
  message : String

/-- When a handler read the clock. -/
structure Readings where
  verified : Instant
  remaining : Instant
  minted : Instant
  answered : Instant

/-- `DelegateRequest`. -/
structure DelegateRequest where
  subject : Text
  ttlSeconds : Int
  capabilities : List Capability

/-- `RenewRequest`. -/
structure RenewRequest where
  ttlSeconds : Int

/-- `DelegateResponse` and `RenewResponse`. -/
structure TokenResponse (S : Signing Claims) where
  subject : Text
  token : S.Token
  expiresAt : Instant

/-- A character that a delegated subject may begin and end with. -/
def subjectEnd (c : Char) : Bool := ('a' ≤ c && c ≤ 'z') || ('0' ≤ c && c ≤ '9')

/-- A character that a delegated subject may have inside. -/
def subjectInner (c : Char) : Bool := subjectEnd c || c == '.' || c == '_' || c == '-'

/-- `delegatedSubjectPattern`. -/
def delegatedSubject (subject : Text) : Bool :=
  subject.length ≤ 64 && subject.all subjectInner && subject.head?.any subjectEnd &&
    subject.getLast?.any subjectEnd

variable (ttlSeconds : Int)

/-- How long a delegated token lasts. -/
def delegatedTTL (remaining : Duration) : Duration :=
  let ttl := durationOfSeconds ttlSeconds
  let ttl := if ttl ≤ 0 then 15 * 60 * second else ttl
  let ttl := if maximumSessionTokenTTL < ttl then maximumSessionTokenTTL else ttl
  if remaining < ttl then remaining else ttl

/-- How long a renewed token lasts. -/
def renewedTTL : Duration :=
  let ttl := durationOfSeconds ttlSeconds
  if ttl ≤ 0 ∨ maximumSessionTokenTTL < ttl then maximumSessionTokenTTL else ttl

/-- One turn of the loop of `handleDelegateSidecar` over the capabilities that are asked for. -/
def delegatedCapability (capabilities : List Capability) (capability : Capability) :
    Except Refusal (List Capability) := do
  ensure (capability = .updateTransition ∧ capability ∉ capabilities)
    ⟨400, "unsupported or duplicate delegated capability"⟩
  return capabilities ++ [capability]

namespace Manager

variable {S : Signing Claims} (manager : Manager S) (now : Instant) (nonce : Option Text)
  (ttl : Duration)

/-- The token for `oc-control`. -/
def mintOwnerToken : Except TokenError S.Token :=
  manager.mint now nonce ocControl .owner [.observe, .lifecycle, .updateTransition] ttl

/-- The token for the command line. -/
def mintObserverToken : Except TokenError S.Token :=
  manager.mint now nonce "cli".toList .observer [.observe] ttl

/-- `Broker.MintSidecarToken`. -/
def mintSidecarToken (subject : Text) (ttl : Duration) : Except TokenError S.Token :=
  manager.mint now nonce subject .sidecar [.runtimeReady, .lifecycle, .observe] ttl

/-- `Broker.MintRuntimeToken`. -/
def mintRuntimeToken (subject : Text) (ttl : Duration) : Except TokenError S.Token :=
  manager.mint now nonce subject .runtime
    [.runtimeReady, .lifecycle, .observe, .delegateSidecar, .updateTransition] ttl

/-- `Broker.authorize`, of the token of the `Authorization` header. -/
def authorize (bearer : Option (Option S.Token)) (capability : Capability) :
    Except Refusal Claims := do
  let token ← need bearer ⟨401, "bearer capability required"⟩
  (manager.verify now token (some capability)).mapError fun _ => ⟨401, "invalid capability"⟩

/-- `Broker.handleDelegateSidecar`; there is no body if it does not decode. -/
def handleDelegateSidecar (clock : Readings) (nonce : Option Text)
    (bearer : Option (Option S.Token)) (body : Option DelegateRequest) :
    Except Refusal (TokenResponse S) := do
  let claims ← manager.authorize clock.verified bearer .delegateSidecar
  ensure (claims.role = .runtime) ⟨403, "only the runtime role may delegate sidecars"⟩
  let delegation ← need (body.filter fun delegation => delegatedSubject delegation.subject &&
    delegation.subject != claims.subject && delegation.subject != ocControl)
    ⟨400, "a valid non-reserved sidecar subject is required"⟩
  let ttl := delegatedTTL delegation.ttlSeconds
    (timeSub (claims.expiresAt * second) clock.remaining)
  ensure (0 < ttl) ⟨401, "runtime capability has expired"⟩
  let capabilities ← delegation.capabilities.foldlM delegatedCapability
    [.runtimeReady, .lifecycle, .observe]
  let token ← (manager.mintDelegated clock.minted nonce delegation.subject .sidecar capabilities ttl
    claims.subject).mapError fun _ => ⟨500, "could not mint sidecar capability"⟩
  return ⟨delegation.subject, token, clock.answered + ttl⟩

/-- `Broker.handleRenewCapability`; there is no body if it does not decode. -/
def handleRenewCapability (clock : Readings) (nonce : Option Text) (sessions : Text → Bool)
    (bearer : Option (Option S.Token)) (body : Option RenewRequest) :
    Except Refusal (TokenResponse S) := do
  let claims ← manager.authorize clock.verified bearer .runtimeReady
  ensure (claims.role = .runtime ∨ claims.role = .sidecar)
    ⟨403, "only active runtime and sidecar sessions may renew"⟩
  ensure (sessions claims.subject) ⟨409, "capability subject is not registered"⟩
  let renewal ← need body ⟨400, "invalid renewal request"⟩
  let ttl := renewedTTL renewal.ttlSeconds
  let token ← (manager.mintDelegated clock.minted nonce claims.subject claims.role
    claims.capabilities ttl claims.delegatedBy).mapError fun _ =>
    ⟨500, "could not renew capability"⟩
  return ⟨claims.subject, token, clock.answered + ttl⟩

end Manager

/-! ## What the requests answer -/

/-- A delegated token has the capabilities of every sidecar, and perhaps one more. -/
theorem mem_delegatedCapabilities {asked capabilities : List Capability}
    (h : asked.foldlM delegatedCapability [.runtimeReady, .lifecycle, .observe] = .ok capabilities)
    {capability : Capability} (hmem : capability ∈ capabilities) :
    capability ∈ [.runtimeReady, .lifecycle, .observe, .updateTransition] := by
  refine foldlM_invariant (fun capabilities => ∀ c ∈ capabilities,
    c ∈ [.runtimeReady, .lifecycle, .observe, .updateTransition]) ?_ (by simp) h capability hmem
  intro asked _ before after hbefore hstep c hc
  simp only [delegatedCapability, steps_ok] at hstep
  obtain ⟨⟨rfl, -⟩, rfl⟩ := hstep
  rcases List.mem_append.1 hc with hc | hc
  · exact hbefore c hc
  · obtain rfl := List.mem_singleton.1 hc
    simp

namespace Manager

variable {S : Signing Claims} {manager : Manager S} {bearer : Option (Option S.Token)}

theorem authorize_ok {now : Instant} {capability : Capability} {claims : Claims} :
    manager.authorize now bearer capability = .ok claims ↔
      (∃ token, bearer = some (some token) ∧ S.read? manager.key token = some claims) ∧
      manager.Owns claims ∧ unix now < claims.expiresAt ∧ claims.issuedAt ≤ unix now + 30 ∧
      claims.has capability := by
  simp only [authorize, steps_ok, mapError_ok, verify_ok, Option.all_some]
  constructor
  · rintro ⟨_, rfl, ⟨token, rfl, hread⟩, hrest⟩
    exact ⟨⟨token, rfl, hread⟩, hrest⟩
  · rintro ⟨⟨token, rfl, hread⟩, hrest⟩
    exact ⟨some token, rfl, ⟨token, rfl, hread⟩, hrest⟩

variable {response : TokenResponse S} {clock : Readings}

/-- A delegated token is for a sidecar of another subject than its delegator, which is a
    runtime, and it cannot delegate. -/
theorem handleDelegateSidecar_ok {nonce : Option Text} {body : Option DelegateRequest}
    (h : manager.handleDelegateSidecar clock nonce bearer body = .ok response) :
    ∃ delegator claims, manager.authorize clock.verified bearer .delegateSidecar = .ok delegator ∧
      delegator.role = .runtime ∧ response.token = S.signed manager.key claims ∧
      manager.Owns claims ∧ claims.role = .sidecar ∧ claims.delegatedBy = delegator.subject ∧
      claims.subject ≠ delegator.subject ∧ claims.subject ≠ ocControl ∧
      .delegateSidecar ∉ claims.capabilities := by
  simp only [handleDelegateSidecar, steps_ok, mapError_ok, mintDelegated_ok,
    Option.filter_eq_some_iff, Bool.and_eq_true, bne_iff_ne] at h
  obtain ⟨delegator, hauthorize, hrole, _, ⟨-, ⟨-, hsubject⟩, hreserved⟩, -, _,
      hcapabilities, _, ⟨-, _, -, rfl⟩, rfl⟩ := h
  refine ⟨delegator, _, hauthorize, hrole, rfl, owns_claims .., rfl, rfl, hsubject, hreserved, ?_⟩
  intro hmem
  simpa using mem_delegatedCapabilities hcapabilities hmem

/-- A renewed token has the claims of the token it renews, but for its times and its nonce. -/
theorem handleRenewCapability_ok {nonce : Option Text} {sessions : Text → Bool}
    {body : Option RenewRequest}
    (h : manager.handleRenewCapability clock nonce sessions bearer body = .ok response) :
    ∃ claims nonce ttl, manager.authorize clock.verified bearer .runtimeReady = .ok claims ∧
      (claims.role = .runtime ∨ claims.role = .sidecar) ∧ 0 < ttl ∧
      response.token = S.signed manager.key (manager.claims clock.minted nonce claims.subject
        claims.role claims.capabilities ttl claims.delegatedBy) := by
  simp only [handleRenewCapability, steps_ok, mapError_ok, mintDelegated_ok] at h
  obtain ⟨claims, hauthorize, hrole, -, _, -, _, ⟨⟨-, httl⟩, nonce, -, rfl⟩, rfl⟩ := h
  exact ⟨claims, nonce, _, hauthorize, hrole, httl, rfl⟩

end Manager

end OpenCut
