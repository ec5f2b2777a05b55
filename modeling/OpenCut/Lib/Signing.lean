import Mathlib.Data.List.Basic

/-!
# Signed values

A value is written as a payload, and the payload is signed with a secret key. Whoever holds
the key reads the value back from a payload whose signature is right (`Signing.read?`).

That signatures cannot be forged is a condition on what others show (`Signing.Presentable`):
someone who knows some signed values shows no right signature of any other payload. So what is
read is always one of the values they know (`Presentable.mem_of_read?`).
-/

/-- How values are written, read back and signed. -/
structure Signing (α : Type) where
  Key : Type
  Payload : Type
  Signature : Type
  signatureDecEq : DecidableEq Signature
  encode : α → Payload
  decode : Payload → Option α
  decode_encode : ∀ a, decode (encode a) = some a
  sign : Key → Payload → Signature

namespace Signing

variable {α : Type} (S : Signing α)

instance : DecidableEq S.Signature := S.signatureDecEq

/-- A payload with a signature. -/
structure Token where
  payload : S.Payload
  signature : S.Signature

variable (key : S.Key) (a : α)

/-- The value, signed. -/
def signed : S.Token := ⟨S.encode a, S.sign key (S.encode a)⟩

/-- The value of a token whose signature is right. -/
def read? (token : S.Token) : Option α :=
  if token.signature = S.sign key token.payload then S.decode token.payload else none

@[simp]
theorem read?_signed : S.read? key (S.signed key a) = some a := by
  simp [read?, signed, S.decode_encode]

theorem decode_signed : S.decode (S.signed key a).payload = some a := S.decode_encode a

/-- What someone can show who knows the tokens: a right signature of a payload that none of
    them has would be forged. -/
def Presentable (known : List S.Token) (token : S.Token) : Prop :=
  token.signature = S.sign key token.payload → ∃ other ∈ known, other.payload = token.payload

variable {S}

/-- What is read from a token that is shown is the value of a token that is known. -/
theorem Presentable.mem_of_read? {key : S.Key} {known : List S.Token} {token : S.Token} {a : α}
    (h : S.Presentable key known token) (hknown : ∀ other ∈ known, ∃ b, other = S.signed key b)
    (hread : S.read? key token = some a) : S.signed key a ∈ known := by
  rw [read?] at hread
  split at hread
  · next hsignature =>
    obtain ⟨other, hmem, hpayload⟩ := h hsignature
    obtain ⟨b, rfl⟩ := hknown other hmem
    rw [← hpayload, S.decode_signed] at hread
    obtain ⟨⟩ := hread
    exact hmem
  · cases hread

end Signing
