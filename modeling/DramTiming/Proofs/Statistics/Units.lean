import DramTiming.Proofs.Binary64.TimesTwoPow
import DramTiming.Proofs.Statistics.Definedness

/-!
# Units of measurement

A coefficient does not depend on the unit of a sample, as far as units that differ by a power of two
go: multiplied by such a power, a sample has the same coefficient bit for bit
(`pearson_map_timesTwoPow`).  The scales of the two samples may differ by another factor of two,
because the logarithms of the largest values are rounded.  Then the values, means, deviations and
sums of the one are those of the other, doubled, and the quotient takes the factor out again.

No step runs out of places.  Values are at least `2 ^ -201` after scaling, so they are multiples of
`2 ^ 821` units; the mean and the deviations are multiples of `2 ^ 716` units, and their products and
the sums of these of `2 ^ 306` units.
-/

namespace DramTiming.Statistics

open Binary64

variable {a b e g j j' : Nat} {scale scale' size x y : Binary64}
  {values xs xs' ys ys' dx dx' dy dy' : List Binary64}

/-! ### Doubled samples -/

theorem doubled_foldl_add (hg : 52 ≤ g) (he : e ≤ 900) {sofar sofar' : Binary64}
    (hsofar : Doubled j g sofar sofar') (hbound : Within (2 ^ (e + 54)) sofar')
    (h : List.Forall₂ (Doubled j g) xs xs') (hxs' : ∀ v ∈ xs', Within (2 ^ e) v) :
    Doubled j g (xs.foldl (· + ·) sofar) (xs'.foldl (· + ·) sofar') := by
  induction h generalizing sofar sofar' with
  | nil => exact hsofar
  | cons hv _ ih =>
    obtain ⟨hv', hrest⟩ := List.forall_mem_cons.mp hxs'
    have hnext := hbound.add_absorbed he hv'
    exact ih (hsofar.add hv hg hnext.isFinite) hnext hrest

theorem doubled_sum (hg : 52 ≤ g) (he : e ≤ 900) (h : List.Forall₂ (Doubled j g) xs xs')
    (hxs' : ∀ v ∈ xs', Within (2 ^ e) v) : Doubled j g (sum xs) (sum xs') := by
  have hzero : Doubled j g 0 0 := by
    rw [zero_eq]
    have hfinite : (zero false).isFinite = true := (within_zero 0 false).isFinite
    exact ⟨hfinite, hfinite, rfl, rfl, dvd_zero _⟩
  refine doubled_foldl_add hg he hzero ?_ h hxs'
  rw [zero_eq]
  exact within_zero _ false

/-- Divided by the size of a sample, a number loses at most 53 of the powers of two in it, and what
the quotient does not have places for. -/
theorem doubled_div_size (h : Doubled j (g + 105) x y) (hfinite : size.isFinite = true)
    (hpos : 0 < size.units) (hle : size.units ≤ 2 ^ 53 * unitsPerOne) (hg : g ≤ 2045)
    (hmean : (y / size).isFinite = true) : Doubled j g (x / size) (y / size) := by
  refine Doubled.div h.isFinite h.isFinite_right h.negative_eq hfinite hfinite hpos hpos rfl
    (by rw [h.units_eq]) hg ?_ hmean
  rcases Nat.eq_zero_or_pos x.units with hzero | hunits
  · exact .inl hzero
  · right
    calc 2 ^ (g + 52) * size.units ≤ 2 ^ (g + 52) * (2 ^ 53 * unitsPerOne) :=
          Nat.mul_le_mul_left _ hle
      _ = 2 ^ (g + 105) * unitsPerOne := by rw [← Nat.mul_assoc, ← pow_add]
      _ ≤ x.units * unitsPerOne := Nat.mul_le_mul_right _ (Nat.le_of_dvd hunits h.dvd_units)

theorem doubled_sub_mean (hmean : Doubled j g x y) (hg : 52 ≤ g)
    (h : List.Forall₂ (Doubled j g) xs xs') (hfinite : ∀ v ∈ xs', (v - y).isFinite = true) :
    List.Forall₂ (Doubled j g) (xs.map (· - x)) (xs'.map (· - y)) := by
  rw [List.forall₂_map_left_iff, List.forall₂_map_right_iff, List.forall₂_iff_zip]
  refine ⟨h.length_eq, fun {v v'} hmem => ?_⟩
  exact (List.forall₂_zip h hmem).sub hmean hg (hfinite v' (List.of_mem_zip hmem).2)

/-- The size of a sample is a positive finite number. -/
theorem ofNat_size_spec (hpos : 0 < values.length) (hlength : values.length ≤ 2 ^ 53) :
    (Binary64.ofNat values.length).isFinite = true ∧
      (Binary64.ofNat values.length).magnitude ≠ 0 ∧
      (Binary64.ofNat values.length).units = values.length * unitsPerOne := by
  obtain ⟨hfinite, hunits⟩ := ofNat_of_isWhole (isWhole_of_le hlength)
  refine ⟨hfinite, fun hzero => ?_, hunits⟩
  rw [(units_eq_zero_iff hfinite).mpr hzero] at hunits
  have := Nat.mul_pos hpos unitsPerOne_pos
  omega

theorem doubled_deviations (hpos : 0 < xs'.length) (hle : xs'.length ≤ 2 ^ 53)
    (h : List.Forall₂ (Doubled j 821) (xs.map (· / scale)) (xs'.map (· / scale')))
    (hbound : ∀ v ∈ xs', Within 2 (v / scale')) :
    List.Forall₂ (Doubled j 716) (deviations (Binary64.ofNat xs.length) scale xs)
      (deviations (Binary64.ofNat xs'.length) scale' xs') := by
  have hlength : xs.length = xs'.length := by simpa using h.length_eq
  obtain ⟨hmean, hdeviations⟩ := within_deviations hbound hpos
  obtain ⟨hfinite, -, hunits⟩ := ofNat_size_spec hpos hle
  have hsum : Doubled j 821 (sum (xs.map (· / scale))) (sum (xs'.map (· / scale'))) :=
    doubled_sum (e := 1) (by decide) (by decide) h (List.forall_mem_map.mpr hbound)
  have hquotient : Doubled j 716 (sum (xs.map (· / scale)) / Binary64.ofNat xs'.length)
      (sum (xs'.map (· / scale')) / Binary64.ofNat xs'.length) := by
    refine doubled_div_size hsum hfinite ?_ ?_ (by decide) hmean.isFinite
    · rw [hunits]
      exact Nat.mul_pos hpos unitsPerOne_pos
    · rw [hunits]
      exact Nat.mul_le_mul_right _ hle
  rw [hlength]
  unfold deviations at hdeviations ⊢
  dsimp only at hdeviations ⊢
  refine doubled_sub_mean hquotient (by decide) (h.imp fun _ _ hv => hv.mono (by decide)) ?_
  exact fun v hv => (hdeviations _ (List.mem_map_of_mem hv)).isFinite

theorem doubled_products (hdx : List.Forall₂ (Doubled j 716) dx dx')
    (hdy : List.Forall₂ (Doubled j' 716) dy dy') (hx : ∀ d ∈ dx', Within (2 ^ 56) d)
    (hy : ∀ d ∈ dy', Within (2 ^ 56) d) :
    List.Forall₂ (Doubled (j + j') 306) (List.zipWith (· * ·) dx dy)
      (List.zipWith (· * ·) dx' dy') := by
  induction hdx generalizing dy dy' with
  | nil => exact .nil
  | cons hd _ ih =>
    cases hdy with
    | nil => exact .nil
    | cons hd' hrest =>
      obtain ⟨hx, hxs⟩ := List.forall_mem_cons.mp hx
      obtain ⟨hy, hys⟩ := List.forall_mem_cons.mp hy
      refine .cons (hd.mul_of_dvd hd' rfl (by decide) ?_) (ih hrest hxs hys)
      exact (hx.mul hy (isWhole_two_pow (e := 112) (by decide))).isFinite

theorem doubled_dot (hdx : List.Forall₂ (Doubled j 716) dx dx')
    (hdy : List.Forall₂ (Doubled j' 716) dy dy') (hx : ∀ d ∈ dx', Within (2 ^ 56) d)
    (hy : ∀ d ∈ dy', Within (2 ^ 56) d) : Doubled (j + j') 306 (dot dx dy) (dot dx' dy') :=
  doubled_sum (e := 112) (by decide) (by decide) (doubled_products hdx hdy hx hy)
    (within_products (by rw [← pow_add]) (isWhole_two_pow (by decide)) hx hy)

/-! ### Coefficients -/

theorem doubled_spread (hdx : List.Forall₂ (Doubled j 716) dx dx')
    (hdy : List.Forall₂ (Doubled 0 716) dy dy) (hx : Deviating dx) (hx' : Deviating dx')
    (hy : Deviating dy) : Doubled j 0 (spread sqrt dx dy) (spread sqrt dx' dy) := by
  obtain ⟨-, hlarge, hsign, hpos⟩ := hx.dots_spec hy
  obtain ⟨hwithin, -, hsign', -⟩ := hx'.dots_spec hy
  have hproduct : Doubled (j + j) 802 (dot dx dx * dot dy dy) (dot dx' dx' * dot dy dy) :=
    (doubled_dot hdx hdx hx'.within hx'.within).mul (doubled_dot hdy hdy hy.within hy.within)
      (by decide) (.inr hlarge) hwithin.isFinite
  exact hproduct.sqrt hsign hpos (hwithin.sqrt hsign' (isWhole_two_pow (by decide))).isFinite

/-- If the deviations of one sample are doubled, the factor is taken out again. -/
theorem coefficient_eq_of_doubled (hdx : List.Forall₂ (Doubled j 716) dx dx')
    (hdy : List.Forall₂ (Doubled 0 716) dy dy) (hx : Deviating dx) (hx' : Deviating dx')
    (hy : Deviating dy) : coefficient sqrt dx' dy = coefficient sqrt dx dy := by
  have hspread := doubled_spread hdx hdy hx hx' hy
  obtain ⟨-, -, hne⟩ := zero_lt_iff.mp (hx.zero_lt_spread hy)
  refine (doubled_dot hdx hdy hx'.within hy.within).div_eq hspread ?_
  exact Nat.pos_of_ne_zero (units_ne_zero hspread.isFinite hne)

/-! ### Samples that differ by a power of two -/

/-- No value that is not zero is below `2 ^ -200` times another one. -/
def Balanced (values : List Binary64) : Prop :=
  ∀ v ∈ values, ∀ w ∈ values, v.isFinite = true → w.isFinite = true → v.units ≠ 0 →
    w.units ≤ 2 ^ 200 * v.units

theorem two_le_length_of_varies (h : ¬ isConstant values = true) : 2 ≤ values.length := by
  match values with
  | [] => exact absurd rfl h
  | [_] => exact absurd rfl h
  | _ :: _ :: _ => simp

/-- A finite sample that varies, has a finite scale and is balanced. -/
structure Regular (values : List Binary64) : Prop where
  length_le : values.length ≤ 2 ^ 53
  isFinite : ∀ v ∈ values, v.isFinite = true
  varies : ¬ isConstant values = true
  not_overflows : ∀ v ∈ values, ¬ v.OverflowsPower
  balanced : Balanced values

namespace Regular

theorem two_le_length (h : Regular values) : 2 ≤ values.length := two_le_length_of_varies h.varies

theorem within_div (h : Regular values) : ∀ v ∈ values, Within 2 (v / powerScale values) :=
  fun _ hv => within_div_powerScale h.isFinite hv

theorem deviating (h : Regular values) :
    Deviating (deviations (Binary64.ofNat values.length) (powerScale values) values) where
  within := (within_deviations h.within_div (Nat.zero_lt_of_lt h.two_le_length)).2
  exists_large := exists_le_units_of_varies h.isFinite h.varies h.not_overflows

theorem isScaleOf (h : Regular values) : IsScaleOf (powerScale values) (largestSize values) :=
  isScaleOf_powerScale h.isFinite h.varies h.not_overflows

/-- A value that is not zero is not much smaller than the scale. -/
theorem units_powerScale_le (h : Regular values) {v : Binary64} (hv : v ∈ values)
    (hne : v.units ≠ 0) : (powerScale values).units ≤ 2 ^ 201 * v.units := by
  obtain ⟨-, a, ha, -, -, heq, -⟩ := exists_largest h.isFinite h.varies
  have hle := h.isScaleOf.le_double
  have hunits : (largestSize values).units = a.units := by rw [heq]; rfl
  have hbalanced := h.balanced v hv a ha (h.isFinite v hv) (h.isFinite a ha) hne
  omega

end Regular

/-- Divided by their scales, one sample is the other one doubled as often as the scales tell. -/
theorem doubled_scaled {k : Int} (hxs : Regular xs) (hxs' : Regular xs')
    (h : List.Forall₂ (IsTimesTwoPow k) xs xs')
    (hscale : (powerScale xs).units * 2 ^ k.toNat =
      2 ^ j * ((powerScale xs').units * 2 ^ (-k).toNat)) :
    List.Forall₂ (Doubled j 821) (xs.map (· / powerScale xs)) (xs'.map (· / powerScale xs')) := by
  have hs := hxs.isScaleOf
  have hs' := hxs'.isScaleOf
  rw [List.forall₂_map_left_iff, List.forall₂_map_right_iff, List.forall₂_iff_zip]
  refine ⟨h.length_eq, fun {v v'} hmem => ?_⟩
  obtain ⟨hv, hv'⟩ := List.of_mem_zip hmem
  have hrel := List.forall₂_zip h hmem
  refine Doubled.div hrel.isFinite hrel.isFinite_right hrel.negative_eq hs.isFinite hs'.isFinite
    hs.units_pos hs'.units_pos ?_ ?_ (by decide) ?_ (hxs'.within_div v' hv').isFinite
  · rw [hs.not_negative, hs'.not_negative]
  · have hpow : 0 < 2 ^ (-k).toNat * 2 ^ k.toNat := by positivity
    apply Nat.eq_of_mul_eq_mul_right hpow
    calc v'.units * (powerScale xs).units * (2 ^ (-k).toNat * 2 ^ k.toNat)
        = v'.units * 2 ^ (-k).toNat * ((powerScale xs).units * 2 ^ k.toNat) := by ring
      _ = v.units * 2 ^ k.toNat * (2 ^ j * ((powerScale xs').units * 2 ^ (-k).toNat)) := by
          rw [hrel.units_eq, hscale]
      _ = 2 ^ j * v.units * (powerScale xs').units * (2 ^ (-k).toNat * 2 ^ k.toNat) := by ring
  · rcases eq_or_ne v.units 0 with hzero | hne
    · exact .inl hzero
    · right
      calc 2 ^ (821 + 52) * (powerScale xs).units ≤ 2 ^ (821 + 52) * (2 ^ 201 * v.units) :=
            Nat.mul_le_mul_left _ (hxs.units_powerScale_le hv hne)
        _ = v.units * unitsPerOne := by
            rw [unitsPerOne_eq, ← Nat.mul_assoc, ← pow_add, Nat.mul_comm]

/-- Two powers of two differ by a factor that is one, too. -/
theorem exists_eq_two_pow_mul {a b : Nat} (h : ∃ p, a = 2 ^ p) (h' : ∃ q, b = 2 ^ q) (hle : b ≤ a) :
    ∃ j, a = 2 ^ j * b := by
  obtain ⟨p, rfl⟩ := h
  obtain ⟨q, rfl⟩ := h'
  have hexponents := (Nat.pow_le_pow_iff_right (by decide : 1 < 2)).mp hle
  exact ⟨p - q, by rw [← pow_add, Nat.sub_add_cancel hexponents]⟩

theorem doubled_deviations_of_regular {k : Int} (hxs : Regular xs) (hxs' : Regular xs')
    (h : List.Forall₂ (IsTimesTwoPow k) xs xs')
    (hscale : (powerScale xs).units * 2 ^ k.toNat =
      2 ^ j * ((powerScale xs').units * 2 ^ (-k).toNat)) :
    List.Forall₂ (Doubled j 716) (deviations (Binary64.ofNat xs.length) (powerScale xs) xs)
      (deviations (Binary64.ofNat xs'.length) (powerScale xs') xs') :=
  doubled_deviations (Nat.zero_lt_of_lt hxs'.two_le_length) hxs'.length_le
    (doubled_scaled hxs hxs' h hscale) hxs'.within_div

theorem coefficient_eq_of_scale_le {k : Int} (hxs : Regular xs) (hxs' : Regular xs')
    (hys : Regular ys) (h : List.Forall₂ (IsTimesTwoPow k) xs xs')
    (hle : (powerScale xs').units * 2 ^ (-k).toNat ≤ (powerScale xs).units * 2 ^ k.toNat) :
    coefficient sqrt (deviations (Binary64.ofNat xs'.length) (powerScale xs') xs')
        (deviations (Binary64.ofNat ys.length) (powerScale ys) ys) =
      coefficient sqrt (deviations (Binary64.ofNat xs.length) (powerScale xs) xs)
        (deviations (Binary64.ofNat ys.length) (powerScale ys) ys) := by
  have hpow {values : List Binary64} (hregular : Regular values) (e : Nat) :
      ∃ p, (powerScale values).units * 2 ^ e = 2 ^ p := by
    obtain ⟨p, hp⟩ := hregular.isScaleOf.exists_eq_two_pow
    exact ⟨p + e, by rw [hp, pow_add]⟩
  obtain ⟨j, hscale⟩ := exists_eq_two_pow_mul (hpow hxs _) (hpow hxs' _) hle
  have hdx := doubled_deviations_of_regular hxs hxs' h hscale
  -- The other sample is as it was.
  have hsame : List.Forall₂ (IsTimesTwoPow 0) ys ys :=
    List.forall₂_same.mpr fun y hy => isTimesTwoPow_zero (hys.isFinite y hy)
  have hdy := doubled_deviations_of_regular (j := 0) hys hys hsame
    (by rw [pow_zero, Nat.one_mul]; rfl)
  exact coefficient_eq_of_doubled hdx hdy hxs.deviating hxs'.deviating hys.deviating

theorem pearson_of_regular (hsame : xs.length = ys.length) (hxs : Regular xs) (hys : Regular ys) :
    pearson xs ys = some (clamp
      (coefficient sqrt (deviations (Binary64.ofNat xs.length) (powerScale xs) xs)
        (deviations (Binary64.ofNat ys.length) (powerScale ys) ys)) (-1) 1) := by
  have hspread := hxs.deviating.zero_lt_spread hys.deviating
  have htwo := hxs.two_le_length
  rw [pearson, pearsonScaled, if_neg (by
    simp only [not_or]
    exact ⟨by simpa using hsame, by omega, hxs.varies, hys.varies⟩)]
  rw [← hsame] at hspread ⊢
  exact if_pos hspread

theorem pearson_eq_of_regular {k : Int} (hsame : xs.length = ys.length) (hxs : Regular xs)
    (hxs' : Regular xs') (hys : Regular ys) (h : List.Forall₂ (IsTimesTwoPow k) xs xs') :
    pearson xs' ys = pearson xs ys := by
  rw [pearson_of_regular hsame hxs hys,
    pearson_of_regular (h.length_eq.symm.trans hsame) hxs' hys]
  refine congrArg (fun c => some (clamp c (-1) 1)) ?_
  rcases Nat.le_total ((powerScale xs').units * 2 ^ (-k).toNat)
    ((powerScale xs).units * 2 ^ k.toNat) with hle | hge
  · exact coefficient_eq_of_scale_le hxs hxs' hys h hle
  · -- The first sample is the one that is doubled.
    have hflip : List.Forall₂ (IsTimesTwoPow (-k)) xs' xs := h.flip.imp fun _ _ hv => hv.symm
    exact (coefficient_eq_of_scale_le hxs' hxs hys hflip (by rwa [neg_neg])).symm

/-! ### Multiplication by powers of two -/

theorem balanced_map_timesTwoPow {k : Int} (h : Balanced xs)
    (hrel : ∀ x ∈ xs, IsTimesTwoPow k x (timesTwoPow k x)) : Balanced (xs.map (timesTwoPow k)) := by
  unfold Balanced
  rw [List.forall_mem_map]
  intro v hv
  rw [List.forall_mem_map]
  intro w hw _ _ hne
  have hv_units := (hrel v hv).units_eq
  have hw_units := (hrel w hw).units_eq
  have hpow : 0 < 2 ^ (-k).toNat := Nat.two_pow_pos _
  have hv_ne : v.units ≠ 0 := by
    intro hzero
    rw [hzero, Nat.zero_mul] at hv_units
    exact (Nat.mul_ne_zero hne hpow.ne') hv_units
  have hle := h v hv w hw (hrel v hv).isFinite (hrel w hw).isFinite hv_ne
  refine Nat.le_of_mul_le_mul_right ?_ hpow
  calc (timesTwoPow k w).units * 2 ^ (-k).toNat = w.units * 2 ^ k.toNat := hw_units
    _ ≤ 2 ^ 200 * v.units * 2 ^ k.toNat := Nat.mul_le_mul_right _ hle
    _ = 2 ^ 200 * (timesTwoPow k v).units * 2 ^ (-k).toNat := by
        rw [Nat.mul_assoc, Nat.mul_assoc, hv_units]

theorem pearson_eq_none_of_not_isFinite (h : ¬ ∀ y ∈ ys, y.isFinite = true) (xs : List Binary64) :
    pearson xs ys = none := by
  cases hr : pearson xs ys with
  | none => rfl
  | some r => exact absurd (isFinite_of_pearson hr).2 h

theorem pearson_of_isConstant (h : isConstant xs = true ∨ isConstant ys = true) :
    pearson xs ys = none := by
  rw [pearson, pearsonScaled, if_pos (.inr (.inr h))]

/-- Multiplied by a power of two, a sample has the same coefficient with another one, bit for bit,
or again none. -/
theorem pearson_map_timesTwoPow {k : Int} (hsame : xs.length = ys.length)
    (hle : xs.length ≤ 2 ^ 53) (hxs : Balanced xs) (hys : Balanced ys)
    (h : ∀ x ∈ xs, InRange 0 x) (h' : ∀ x ∈ xs, InRange k x) :
    pearson (xs.map (timesTwoPow k)) ys = pearson xs ys := by
  have hrel : ∀ x ∈ xs, IsTimesTwoPow k x (timesTwoPow k x) :=
    fun x hx => isTimesTwoPow_timesTwoPow (h x hx) (h' x hx)
  have hforall : List.Forall₂ (IsTimesTwoPow k) xs (xs.map (timesTwoPow k)) := by
    rwa [List.forall₂_map_right_iff, List.forall₂_same]
  have hconstant := isConstant_eq_of_forall₂ (fun hx hy => hx.eq_eq hy) hforall
  have hxs_finite : ∀ x ∈ xs, x.isFinite = true := fun x hx => (h x hx).isFinite
  have hxs'_finite : ∀ x ∈ xs.map (timesTwoPow k), x.isFinite = true :=
    List.forall_mem_map.mpr fun x hx => (hrel x hx).isFinite_right
  by_cases hfinite : ∀ y ∈ ys, y.isFinite = true
  swap
  · rw [pearson_eq_none_of_not_isFinite hfinite, pearson_eq_none_of_not_isFinite hfinite]
  by_cases hnone : isConstant xs = true ∨ isConstant ys = true
  · rw [pearson_of_isConstant hnone, pearson_of_isConstant (by rwa [hconstant])]
  obtain ⟨hxs_varies, hys_varies⟩ := not_or.mp hnone
  by_cases hover : ∃ y ∈ ys, y.OverflowsPower
  · have htwo := two_le_length_of_varies hxs_varies
    rw [(pearson_eq_none_iff hsame htwo hxs_finite hfinite).mpr (.inr (.inr (.inr hover))),
      (pearson_eq_none_iff (by simpa using hsame) (by simpa using htwo) hxs'_finite hfinite).mpr
        (.inr (.inr (.inr hover)))]
  push Not at hover
  have hregular : Regular xs := ⟨hle, hxs_finite, hxs_varies, fun x hx =>
    (h x hx).not_overflows (isTimesTwoPow_zero (hxs_finite x hx)), hxs⟩
  have hregular' : Regular (xs.map (timesTwoPow k)) := by
    refine ⟨by simpa using hle, hxs'_finite, by rwa [hconstant], ?_,
      balanced_map_timesTwoPow hxs hrel⟩
    exact List.forall_mem_map.mpr fun x hx => (h' x hx).not_overflows (hrel x hx)
  exact pearson_eq_of_regular hsame hregular hregular' ⟨by omega, hfinite, hys_varies, hover, hys⟩
    hforall

/-- A sample with a scale of one, though its largest value is just below two. -/
def justBelowTwo : List Binary64 := [2 - twoPow (-52), 1, 1.5]

/-- The scale is not multiplied by the same power as this sample: the logarithm of the largest value
is just below one, and nine more than that is rounded up to ten. -/
theorem pearson_map_timesTwoPow_justBelowTwo :
    powerScale (justBelowTwo.map (timesTwoPow 9)) = timesTwoPow 10 (powerScale justBelowTwo) ∧
      pearson (justBelowTwo.map (timesTwoPow 9)) [1, 4, 3] = pearson justBelowTwo [1, 4, 3] := by
  have hscale :
      powerScale (justBelowTwo.map (timesTwoPow 9)) = timesTwoPow 10 (powerScale justBelowTwo) := by
    decide +kernel
  have hbalanced : Balanced justBelowTwo ∧ Balanced [1, 4, 3] := by
    unfold Balanced
    decide +kernel
  have hrange : ∀ k ∈ [(0 : Int), 9], ∀ x ∈ justBelowTwo, x.isFinite = true ∧
      2 ^ 274 * 2 ^ (-k).toNat ≤ x.units * 2 ^ k.toNat ∧
        x.units * 2 ^ k.toNat ≤ 2 ^ 2074 * 2 ^ (-k).toNat := by
    decide +kernel
  have hinRange {k : Int} (hk : k ∈ [(0 : Int), 9]) : ∀ x ∈ justBelowTwo, InRange k x :=
    fun x hx => ⟨(hrange k hk x hx).1, fun _ => (hrange k hk x hx).2⟩
  exact ⟨hscale, pearson_map_timesTwoPow (by decide) (by decide) hbalanced.1 hbalanced.2
    (hinRange (by simp)) (hinRange (by simp))⟩

end DramTiming.Statistics
