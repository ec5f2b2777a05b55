import Mathlib.Algebra.Order.Ring.Int
import Mathlib.Tactic.Linarith

/-!
# Linear compositing

`renderengine/compositor.go`: pixels are composed in linear light, with channels of 16 bits that are
multiplied by alpha. Every step rounds half to even. Rounding is monotone and leaves whole numbers
alone, so no colour comes to exceed alpha, and no clamp is needed (`linear_compositing`).
-/

namespace OpenCut

/-- The colours of a pixel: red, green and blue. -/
inductive ColourChannel
  | r
  | g
  | b

/-- `LinearRGBA16`. -/
structure LinearRGBA16 where
  colour : ColourChannel → Int
  a : Int

/-- `roundHalfEvenSigned`. -/
def roundHalfEvenSigned (numerator denominator : Int) : Int :=
  let quotient := numerator.tdiv denominator
  let comparison : Int := (numerator.tmod denominator).natAbs * 2
  if denominator < comparison ∨ comparison = denominator ∧ quotient % 2 ≠ 0 then
    if numerator < 0 then quotient - 1 else quotient + 1
  else quotient

/-- The conversion to `uint16`. -/
def uint16 (value : Int) : Int := value % 65536

/-- `clampUint16`. -/
def clampUint16 (value : Int) : Int :=
  if value < 0 then 0 else if 65535 < value then 65535 else uint16 value

/-- `applyLinearOpacity`. -/
def applyLinearOpacity (value : LinearRGBA16) (opacity : Int) : LinearRGBA16 :=
  let scale (channel : Int) := uint16 (roundHalfEvenSigned (channel * opacity) 10000)
  ⟨fun c => scale (value.colour c), scale value.a⟩

/-- A channel of `sourceOverLinear` before it is clamped. -/
def LinearRGBA16.over (source : LinearRGBA16) (front back : Int) : Int :=
  front + roundHalfEvenSigned (back * (65535 - source.a)) 65535

/-- `sourceOverLinear`. -/
def sourceOverLinear (source destination : LinearRGBA16) : LinearRGBA16 :=
  let compose (front back : Int) := clampUint16 (source.over front back)
  let a := compose source.a destination.a
  ⟨fun c => min (compose (source.colour c) (destination.colour c)) a, a⟩

/-- `captionCoverageColor`. -/
def captionCoverageColor (color : LinearRGBA16) (coverage : Int) : LinearRGBA16 :=
  let alpha := roundHalfEvenSigned (color.a * coverage) 255
  ⟨fun c => uint16 (roundHalfEvenSigned (color.colour c * alpha) 65535), uint16 alpha⟩

/-! ## Rounding -/

variable {n m d k : Int}

theorem roundHalfEvenSigned_mono (hd : 0 < d) (hn : 0 ≤ n) (h : n ≤ m) :
    roundHalfEvenSigned n d ≤ roundHalfEvenSigned m d := by
  have hm := hn.trans h
  have hquotient := Int.ediv_le_ediv hd h
  have hn' := Int.mul_ediv_add_emod n d
  have hm' := Int.mul_ediv_add_emod m d
  have := Int.emod_nonneg n hd.ne'
  have := Int.emod_nonneg m hd.ne'
  simp only [roundHalfEvenSigned, Int.tdiv_eq_ediv_of_nonneg hn, Int.tdiv_eq_ediv_of_nonneg hm,
    Int.tmod_eq_emod_of_nonneg hn, Int.tmod_eq_emod_of_nonneg hm, if_neg (not_lt.2 hn),
    if_neg (not_lt.2 hm)]
  rcases hquotient.lt_or_eq with hlt | heq
  · split <;> split <;> omega
  · rw [heq] at hn' ⊢
    split <;> split <;> omega

theorem roundHalfEvenSigned_mul (hd : 0 < d) (k : Int) : roundHalfEvenSigned (k * d) d = k := by
  simp only [roundHalfEvenSigned, Int.mul_tdiv_cancel _ hd.ne', Int.mul_tmod_left]
  rw [if_neg (by simp; omega)]

/-- A number times what is at most one is rounded to between zero and the number. -/
theorem roundHalfEvenSigned_range (hd : 0 < d) (hn : 0 ≤ n) (hk : 0 ≤ k) (hle : k ≤ d) :
    0 ≤ roundHalfEvenSigned (n * k) d ∧ roundHalfEvenSigned (n * k) d ≤ n := by
  have hnk := mul_nonneg hn hk
  have hbound := roundHalfEvenSigned_mono hd hnk (mul_le_mul_of_nonneg_left hle hn)
  have hnonneg := roundHalfEvenSigned_mono hd le_rfl hnk
  rw [← zero_mul d] at hnonneg
  rw [roundHalfEvenSigned_mul hd] at hbound hnonneg
  exact ⟨hnonneg, hbound⟩

/-! ## Pixels -/

/-- Every colour is at most alpha. -/
def LinearRGBA16.Premultiplied (pixel : LinearRGBA16) : Prop :=
  (∀ c, 0 ≤ pixel.colour c ∧ pixel.colour c ≤ pixel.a) ∧ pixel.a ≤ 65535

theorem uint16_eq (h : 0 ≤ n ∧ n ≤ m) (hm : m ≤ 65535) : uint16 n = n :=
  Int.emod_eq_of_lt h.1 (by omega)

theorem captionCoverageColor_premultiplied {color : LinearRGBA16} {coverage : Int}
    (hcolor : ∀ c, 0 ≤ color.colour c ∧ color.colour c ≤ 65535) (ha : 0 ≤ color.a ∧ color.a ≤ 65535)
    (hcoverage : 0 ≤ coverage ∧ coverage ≤ 255) :
    (captionCoverageColor color coverage).Premultiplied := by
  have halpha := roundHalfEvenSigned_range (by decide) ha.1 hcoverage.1 hcoverage.2
  have hfits := halpha.2.trans ha.2
  dsimp only [captionCoverageColor, LinearRGBA16.Premultiplied]
  rw [uint16_eq halpha ha.2]
  refine ⟨fun c => ?_, hfits⟩
  have hcolour := roundHalfEvenSigned_range (by decide) halpha.1 (hcolor c).1 (hcolor c).2
  rwa [mul_comm, uint16_eq hcolour hfits]

theorem applyLinearOpacity_premultiplied {value : LinearRGBA16} (h : value.Premultiplied)
    {opacity : Int} (hopacity : 0 ≤ opacity ∧ opacity ≤ 10000) :
    (applyLinearOpacity value opacity).Premultiplied := by
  obtain ⟨hcolour, ha⟩ := h
  have hscale : ∀ {channel : Int}, 0 ≤ channel → _ := fun h =>
    roundHalfEvenSigned_range (by decide) h hopacity.1 hopacity.2
  have halpha := hscale ((hcolour .r).1.trans (hcolour .r).2)
  dsimp only [applyLinearOpacity, LinearRGBA16.Premultiplied]
  rw [uint16_eq halpha ha]
  refine ⟨fun c => ?_, halpha.2.trans ha⟩
  rw [uint16_eq (hscale (hcolour c).1) ((hcolour c).2.trans ha)]
  exact ⟨(hscale (hcolour c).1).1, roundHalfEvenSigned_mono (by decide)
    (mul_nonneg (hcolour c).1 hopacity.1) (mul_le_mul_of_nonneg_right (hcolour c).2 hopacity.1)⟩

variable {source destination : LinearRGBA16}

/-- The sum of a front and a back is at most that of the two alphas, which fits. -/
theorem over_range (hs : source.Premultiplied) (hd : destination.Premultiplied)
    (c : ColourChannel) : 0 ≤ source.over (source.colour c) (destination.colour c) ∧
      source.over (source.colour c) (destination.colour c) ≤ source.over source.a destination.a ∧
      source.over source.a destination.a ≤ 65535 := by
  obtain ⟨hcolour, ha⟩ := hs
  obtain ⟨hcolour', ha'⟩ := hd
  have hfront := hcolour c
  have hback := hcolour' c
  have hinverse : 0 ≤ 65535 - source.a := by omega
  have hmono := roundHalfEvenSigned_mono (d := 65535) (by decide) (mul_nonneg hback.1 hinverse)
    (mul_le_mul_of_nonneg_right hback.2 hinverse)
  have hrange := roundHalfEvenSigned_range (d := 65535) (by decide) hback.1 hinverse (by omega)
  have hfits := roundHalfEvenSigned_range (by decide) hinverse (hback.1.trans hback.2) ha'
  rw [mul_comm] at hfits
  unfold LinearRGBA16.over
  omega

/-- The clamps change nothing. -/
theorem sourceOverLinear_eq (hs : source.Premultiplied) (hd : destination.Premultiplied) :
    sourceOverLinear source destination =
      ⟨fun c => source.over (source.colour c) (destination.colour c),
        source.over source.a destination.a⟩ := by
  have hclamp : ∀ {n}, 0 ≤ n → n ≤ 65535 → clampUint16 n = n := by
    intro n h h'
    rw [clampUint16, if_neg (not_lt.2 h), if_neg (not_lt.2 h'), uint16_eq ⟨h, h'⟩ le_rfl]
  obtain ⟨h, hle, hfits⟩ := over_range hs hd .r
  dsimp only [sourceOverLinear]
  rw [hclamp (h.trans hle) hfits]
  congr 1
  funext c
  obtain ⟨h, hle, -⟩ := over_range hs hd c
  rw [hclamp h (hle.trans hfits), min_eq_left hle]

theorem sourceOverLinear_premultiplied (hs : source.Premultiplied)
    (hd : destination.Premultiplied) : (sourceOverLinear source destination).Premultiplied := by
  rw [sourceOverLinear_eq hs hd]
  exact ⟨fun c => ⟨(over_range hs hd c).1, (over_range hs hd c).2.1⟩, (over_range hs hd .r).2.2⟩

theorem sourceOverLinear_full (hs : source.Premultiplied) (hd : destination.Premultiplied)
    (hfull : source.a = 65535) : sourceOverLinear source destination = source := by
  have hfront : ∀ front back, source.over front back = front := by
    intro front back
    rw [LinearRGBA16.over, hfull, sub_self, mul_zero]
    exact add_zero front
  simp only [sourceOverLinear_eq hs hd, hfront]

/-- With premultiplied pixels, no clamp of `sourceOverLinear` changes a value, and the results are
    premultiplied. A transparent source leaves the destination, and an opaque one replaces it. The
    colour of a caption is premultiplied. -/
theorem linear_compositing (hs : source.Premultiplied) (hd : destination.Premultiplied) :
    (∀ opacity, 0 ≤ opacity ∧ opacity ≤ 10000 → (applyLinearOpacity source opacity).Premultiplied) ∧
      (sourceOverLinear source destination).Premultiplied ∧
      sourceOverLinear source destination =
        ⟨fun c => source.over (source.colour c) (destination.colour c),
          source.over source.a destination.a⟩ ∧
      (source.a = 0 → sourceOverLinear source destination = destination) ∧
      (source.a = 65535 → sourceOverLinear source destination = source) ∧
      ∀ (color : LinearRGBA16) (coverage : Int),
        (∀ c, 0 ≤ color.colour c ∧ color.colour c ≤ 65535) → 0 ≤ color.a ∧ color.a ≤ 65535 →
        0 ≤ coverage ∧ coverage ≤ 255 → (captionCoverageColor color coverage).Premultiplied := by
  have hover := sourceOverLinear_eq hs hd
  refine ⟨fun _ => applyLinearOpacity_premultiplied hs, sourceOverLinear_premultiplied hs hd, hover,
    fun htransparent => ?_, sourceOverLinear_full hs hd,
    fun _ _ => captionCoverageColor_premultiplied⟩
  have hsum : ∀ front back, source.over front back = front + back := by
    intro front back
    rw [LinearRGBA16.over, htransparent, sub_zero, roundHalfEvenSigned_mul (by decide)]
  have hcolour : ∀ c, source.colour c = 0 := fun c => by
    have := hs.1 c
    omega
  simp only [hover, hsum, hcolour, htransparent, zero_add]

/-- A grey at half opacity. -/
theorem linear_compositing_grey :
    LinearRGBA16.Premultiplied ⟨fun _ => 300, 600⟩ ∧
    (applyLinearOpacity ⟨fun _ => 300, 600⟩ 5000).Premultiplied := by
  have hs : LinearRGBA16.Premultiplied ⟨fun _ => 300, 600⟩ := by simp [LinearRGBA16.Premultiplied]
  exact ⟨hs, (linear_compositing hs hs).1 5000 (by decide)⟩

/-! ## Layers -/

/-- The workspace at a pixel, after the sources that are composed there in turn. -/
def compositePixel (sources : List LinearRGBA16) : LinearRGBA16 :=
  sources.foldl (fun pixel source => sourceOverLinear source pixel) ⟨fun _ => 0, 0⟩

theorem compositePixel_premultiplied {sources : List LinearRGBA16}
    (h : ∀ source ∈ sources, source.Premultiplied) : (compositePixel sources).Premultiplied :=
  List.foldlRecOn sources _ (by simp [LinearRGBA16.Premultiplied])
    fun _ hpixel _ hmem => sourceOverLinear_premultiplied (h _ hmem) hpixel

/-- The pixel is premultiplied, and nothing that is below an opaque layer shows in it. -/
theorem compositePixel_hides {sources : List LinearRGBA16}
    (h : ∀ source ∈ sources, source.Premultiplied) :
    (compositePixel sources).Premultiplied ∧ ∀ below top above, sources = below ++ top :: above →
      top.a = 65535 → compositePixel sources = compositePixel (top :: above) := by
  refine ⟨compositePixel_premultiplied h, ?_⟩
  rintro below top above rfl hfull
  have hcover (sources) (hsub : sources ⊆ below ++ top :: above) :
      sourceOverLinear top (compositePixel sources) = top :=
    sourceOverLinear_full (h top (by simp))
      (compositePixel_premultiplied fun source hmem => h source (hsub hmem)) hfull
  rw [compositePixel, List.foldl_append, List.foldl_cons, ← compositePixel, hcover below (by simp)]
  exact congrArg (above.foldl _) (hcover [] (by simp)).symm

/-- A black layer over a grey one. -/
theorem compositePixel_hides_black :
    compositePixel [⟨fun _ => 3, 6⟩, ⟨fun _ => 0, 65535⟩] = compositePixel [⟨fun _ => 0, 65535⟩] :=
  (compositePixel_hides (by simp [LinearRGBA16.Premultiplied])).2 [_] _ [] rfl rfl

end OpenCut
