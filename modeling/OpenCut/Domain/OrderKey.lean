import OpenCut.Domain.Arithmetic
import OpenCut.Domain.Instants

/-!
# Order keys

`domain/order_key.go`: a time is stored beside a fixed-width key that sorts as
the times do, so that queries can compare times as texts. The key is the time
scaled by `2 ^ 128`, truncated and moved up by `2 ^ 191`; it is written as 48 hex
digits, which sort as the numbers do, so it is a number here.

Truncation loses no order: two distinct times differ by at least `2 ^ -62`, far
more than a unit of the key (`rationalOrderKey_strictMono`). The texts are in the order
of the numbers, byte by byte (`rational_order_key_text`).
-/

namespace OpenCut

open RationalTime

variable (t : RationalTime)

/-- `RationalOrderKey`, as the number its hex digits write. -/
def rationalOrderKey : Int := (t.value * 2 ^ 128).tdiv t.scale + 2 ^ 191

/-- A quotient that is cut off towards zero is less than one away. -/
theorem tdiv_bounds (a : Int) {b : Int} (hb : 0 < b) :
    a - b < b * a.tdiv b ∧ b * a.tdiv b < a + b := by
  have h := Int.mul_tdiv_add_tmod a b
  have h₁ := Int.tmod_lt_of_pos a hb
  have h₂ : -b < a.tmod b := by
    have := Int.natAbs_tmod a b
    have hlt : (a.tmod b).natAbs < b.natAbs := by
      rw [this]
      exact Nat.mod_lt _ (Int.natAbs_pos.2 hb.ne')
    omega
  omega

/-- The key separates times as far apart as `2 ^ -62`, which distinct times are. -/
theorem rationalOrderKey_strictMono {a b : RationalTime} (h : a < b) :
    rationalOrderKey a < rationalOrderKey b := by
  have hab : a.value * b.scale + 1 ≤ b.value * a.scale := h
  have has : (0 : Int) < a.scale := Int.natCast_pos.2 a.valid.scale_pos
  have hbs : (0 : Int) < b.scale := Int.natCast_pos.2 b.valid.scale_pos
  have hal : (a.scale : Int) ≤ 2 ^ 31 - 1 := by
    have := a.valid.scale_le
    simp only [maxInt32] at this
    omega
  have hbl : (b.scale : Int) ≤ 2 ^ 31 - 1 := by
    have := b.valid.scale_le
    simp only [maxInt32] at this
    omega
  have ha := (tdiv_bounds (a.value * 2 ^ 128) has).2
  have hb := (tdiv_bounds (b.value * 2 ^ 128) hbs).1
  unfold rationalOrderKey
  set x := (a.value * 2 ^ 128).tdiv a.scale
  set y := (b.value * 2 ^ 128).tdiv b.scale
  by_contra hxy
  have hyx : y ≤ x := by omega
  -- Clear both denominators: the cross products differ by `2 ^ 128`, the
  -- truncations by at most two products of denominators.
  have hprod : (0 : Int) < a.scale * b.scale := Int.mul_pos has hbs
  have h₁ : (b.scale : Int) * (a.scale * x) < b.scale * (a.value * 2 ^ 128 + a.scale) :=
    Int.mul_lt_mul_of_pos_left ha hbs
  have h₂ : (a.scale : Int) * (b.value * 2 ^ 128 - b.scale) < a.scale * (b.scale * y) :=
    Int.mul_lt_mul_of_pos_left hb has
  have h₃ : (a.scale : Int) * (b.scale * y) ≤ b.scale * (a.scale * x) := by nlinarith
  have h₄ : (a.scale : Int) * b.scale ≤ (2 ^ 31 - 1) * (2 ^ 31 - 1) := by nlinarith
  nlinarith

/-! ## The text -/

/-- The low bytes of a number, as many as given, the highest first. -/
def bigEndian : Nat → Nat → List Nat
  | 0, _ => []
  | width + 1, n => bigEndian width (n / 256) ++ [n % 256]

variable (bytes : List Nat)

/-- `hex.EncodeToString`. -/
def hexEncode : Text :=
  bytes.flatMap fun byte => [Nat.digitChar (byte / 16), Nat.digitChar (byte % 16)]

open Outcome in
/-- `RationalOrderKey`. -/
def rationalOrderKeyText (value : RationalTime) : Except TimeError Text := do
  let scaled := rationalOrderKey value
  ensure (0 ≤ scaled ∧ scaled < 2 ^ 192) .timeOverflow
  return hexEncode (bigEndian 24 scaled.toNat)

theorem bigEndian_bytes (width n : Nat) :
    (bigEndian width n).length = width ∧ ∀ byte ∈ bigEndian width n, byte < 256 := by
  induction width generalizing n with
  | zero => simp [bigEndian]
  | succ width ih =>
    obtain ⟨hlength, hbytes⟩ := ih (n / 256)
    have := Nat.mod_lt n (show 0 < 256 by decide)
    simp only [bigEndian, List.length_append, hlength, List.mem_append, List.mem_singleton]
    exact ⟨rfl, by rintro byte (h | rfl); exacts [hbytes byte h, this]⟩

theorem hexEncode_length : (hexEncode bytes).length = 2 * bytes.length := by
  simp [hexEncode, List.length_flatMap, Nat.mul_comm]

theorem hexEncode_digits {bytes : List Nat} (h : ∀ byte ∈ bytes, byte < 256) {c : Char}
    (hc : c ∈ hexEncode bytes) : c ∈ "0123456789abcdef".toList := by
  have hdigit : ∀ d < 16, Nat.digitChar d ∈ "0123456789abcdef".toList := by decide
  obtain ⟨byte, hbyte, hc⟩ := List.mem_flatMap.1 hc
  have := h byte hbyte
  rcases List.mem_pair.1 hc with rfl | rfl
  · exact hdigit _ (by omega)
  · exact hdigit _ (by omega)

theorem ordered_hexEncode {n m : Nat} (width : Nat) (hn : n < 256 ^ width) (hm : m < 256 ^ width) :
    Ordered n m (hexEncode (bigEndian width n)) (hexEncode (bigEndian width m)) := by
  induction width generalizing n m with
  | zero => exact ⟨rfl, by omega, fun _ => rfl⟩
  | succ width ih =>
    rw [pow_succ] at hn hm
    -- The last byte is two digits, the higher one first.
    have hlast : Ordered (n % 256) (m % 256) (hexEncode [n % 256]) (hexEncode [m % 256]) :=
      (ordered_digitChar (n := n % 256 / 16) (m := m % 256 / 16) (by omega) (by omega)).append rfl
        (fun _ => ordered_digitChar (by omega) (by omega)) (by omega) (by omega)
    rw [bigEndian, bigEndian, hexEncode, hexEncode, List.flatMap_append, List.flatMap_append]
    exact (ih (by omega) (by omega)).append rfl (fun _ => hlast) (by omega) (by omega)

/-- A numerator of 64 bits, scaled by `2 ^ 128`, has 192 bits. -/
theorem rationalOrderKey_range : 0 ≤ rationalOrderKey t ∧ rationalOrderKey t < 2 ^ 192 := by
  have hscale : (1 : Int) ≤ t.scale := Int.natCast_pos.2 t.valid.scale_pos
  have hge := t.valid.value_ge
  have hle := t.valid.value_le
  simp only [maxInt64] at hge hle
  have hbounds := tdiv_bounds (t.value * 2 ^ 128) (show (0 : Int) < t.scale by omega)
  unfold rationalOrderKey
  set x := (t.value * 2 ^ 128).tdiv t.scale
  constructor
  · by_contra h
    have : (t.scale : Int) * x ≤ t.scale * (-2 ^ 191 - 1) := by
      gcongr
      omega
    omega
  · by_contra h
    have : (t.scale : Int) * 2 ^ 191 ≤ t.scale * x := by
      gcongr
      omega
    omega

/-- Every time has a key of 48 hex digits in lower case. Compared byte by byte, two keys are in the
    order of the times, and they are the same if and only if the times are. -/
theorem rational_order_key_text (a b : RationalTime) :
    ∃ s t : Text, rationalOrderKeyText a = .ok s ∧ rationalOrderKeyText b = .ok t ∧
      s.length = 48 ∧ (∀ c ∈ s, c ∈ "0123456789abcdef".toList) ∧
      (s < t ↔ a.compare b = .lt) ∧ (t < s ↔ a.compare b = .gt) ∧ (s = t ↔ a = b) := by
  have hkey : ∀ t, rationalOrderKeyText t =
      .ok (hexEncode (bigEndian 24 (rationalOrderKey t).toNat)) := by
    intro t
    rw [rationalOrderKeyText, Outcome.ensure_of _ (rationalOrderKey_range t)]
    rfl
  have hmono : StrictMono fun t => (rationalOrderKey t).toNat := by
    intro a b hab
    have := rationalOrderKey_strictMono hab
    have := (rationalOrderKey_range a).1
    dsimp only
    omega
  have hordered : ∀ a b, Ordered _ _ _ _ := fun a b =>
    ordered_hexEncode (n := (rationalOrderKey a).toNat) (m := (rationalOrderKey b).toNat) 24
      (by have := (rationalOrderKey_range a).2; omega)
      (by have := (rationalOrderKey_range b).2; omega)
  obtain ⟨hlt, heq⟩ := (hordered a b).iff (hordered b a)
  obtain ⟨hgt, -⟩ := (hordered b a).iff (hordered a b)
  obtain ⟨hlength, hbytes⟩ := bigEndian_bytes 24 (rationalOrderKey a).toNat
  refine ⟨_, _, hkey a, hkey b, by rw [hexEncode_length, hlength], fun _ => hexEncode_digits hbytes,
    ?_, ?_, ?_⟩
  · rw [hlt, compare_eq_lt]
    exact hmono.lt_iff_lt
  · rw [hgt, compare_eq_gt]
    exact hmono.lt_iff_lt
  · rw [heq]
    exact hmono.injective.eq_iff

end OpenCut
