import SfqSched.Load
import SfqSched.RoundShift

namespace SfqSched

/-- No inverse is cached, or the right one: what `load_add`, `load_sub`, `load_set` and
`scale_by_weight` leave behind for a weight from `1` to `2^32`. -/
def LoadWeight.Cached (lw : LoadWeight) : Prop :=
  lw.invWeight = 0 ∨ lw.invWeight = wmultConst / lw.weight

/-- Every value `scale_by_weight` computes on the way, before it is cut to 64 bits. -/
def scaleIntermediates (deltaExec weight : Nat) (lw : LoadWeight) : List Nat :=
  let tmp := deltaExec * weight
  let inv := lw.cacheInv.invWeight
  if wmultConst < tmp then
    [tmp, tmp + 2 ^ 15, roundShift tmp 16 * inv, roundShift tmp 16 * inv + 2 ^ 15]
  else [tmp, tmp * inv, tmp * inv + 2 ^ 31]

/-- The two schedules of roundings, without the cuts. -/
def scaled (tmp inv : Nat) : Nat :=
  if wmultConst < tmp then roundShift (roundShift tmp 16 * inv) 16 else roundShift (tmp * inv) 32

section scale
variable {deltaExec weight w : Nat} {lw : LoadWeight}

theorem rsr_of_fits {x y : Nat} (fits : x + 2 ^ (y - 1) < 2 ^ 64) : rsr x y = roundShift x y := by
  unfold rsr roundShift
  rw [Nat.mod_eq_of_lt fits]

theorem LoadWeight.Cached.inv (cached : lw.Cached) (low : 2 ≤ lw.weight) (high : lw.weight ≤ wmultConst) :
    lw.cacheInv.invWeight = wmultConst / lw.weight := by
  have positive : wmultConst / lw.weight ≠ 0 := (Nat.div_pos high (by omega)).ne'
  unfold LoadWeight.cacheInv
  by_cases none : lw.invWeight = 0
  · rw [if_pos none]
    by_cases full : wmultConst ≤ lw.weight
    · have same : lw.weight = wmultConst := le_antisymm high full
      simp [same, wmultConst]
    · simp [full, show lw.weight ≠ 0 by omega]
  · rw [if_neg none]
    exact cached.resolve_left none

theorem recip_le (low : 2 ≤ w) : wmultConst / w ≤ 2 ^ 31 := by
  have le : wmultConst / w ≤ wmultConst / 2 := Nat.div_le_div_left low (by decide)
  exact le

/-- Without overflow the cuts change nothing. -/
theorem scaleByWeight_of_fits (fits : ∀ x ∈ scaleIntermediates deltaExec weight lw, x < 2 ^ 64) :
    (scaleByWeight deltaExec weight lw).1 = scaled (deltaExec * weight) lw.cacheInv.invWeight := by
  simp only [scaleIntermediates] at fits
  simp only [scaleByWeight, scaled]
  have product : deltaExec * weight < 2 ^ 64 := by
    refine fits _ ?_
    split <;> simp
  rw [Nat.mod_eq_of_lt product]
  split
  · rename_i long
    simp only [if_pos long] at fits
    have first : deltaExec * weight + 2 ^ 15 < 2 ^ 64 := fits _ (by simp)
    have second : roundShift (deltaExec * weight) 16 * lw.cacheInv.invWeight < 2 ^ 64 := fits _ (by simp)
    have third : roundShift (deltaExec * weight) 16 * lw.cacheInv.invWeight + 2 ^ 15 < 2 ^ 64 := fits _ (by simp)
    rw [rsr_of_fits (y := 16) first, Nat.mod_eq_of_lt second, rsr_of_fits (y := 16) third]
    refine min_eq_left ?_
    unfold roundShift longMax at *
    omega
  · rename_i short
    simp only [if_neg short] at fits
    have second : deltaExec * weight * lw.cacheInv.invWeight < 2 ^ 64 := fits _ (by simp)
    have third : deltaExec * weight * lw.cacheInv.invWeight + 2 ^ 31 < 2 ^ 64 := fits _ (by simp)
    rw [Nat.mod_eq_of_lt second, rsr_of_fits (y := 32) third]
    refine min_eq_left ?_
    unfold roundShift longMax
    omega

/-- The three roundings and the truncated reciprocal, on both sides of the switch. -/
theorem scaled_bounds (tmp : Nat) (pos : 0 < w) :
    -((tmp : ℚ) / 2 ^ 32 + (wmultConst / w : ℕ) / 2 ^ 17 + 1 / 2) ≤ scaled tmp (wmultConst / w) - tmp / w ∧
      (scaled tmp (wmultConst / w) : ℚ) - tmp / w ≤ (wmultConst / w : ℕ) / 2 ^ 17 + 1 / 2 := by
  have recip := mul_recip_bounds tmp wmultConst w pos (by decide)
  have const : ((wmultConst : ℕ) : ℚ) = 2 ^ 32 := by norm_num [wmultConst]
  rw [const] at recip
  set inv := wmultConst / w with def_inv
  have nonneg : (0 : ℚ) ≤ inv := Nat.cast_nonneg inv
  unfold scaled
  split
  · have firstLow := roundShift.lower (x := tmp) (k := 16) (by decide)
    have firstHigh := roundShift.upper (x := tmp) (k := 16) (by decide)
    have secondLow := roundShift.lower (x := roundShift tmp 16 * inv) (k := 16) (by decide)
    have secondHigh := roundShift.upper (x := roundShift tmp 16 * inv) (k := 16) (by decide)
    push_cast at secondLow secondHigh
    have below : ((tmp : ℚ) / 2 ^ 16 - 1 / 2) * inv / 2 ^ 16 ≤ roundShift tmp 16 * inv / 2 ^ 16 := by gcongr
    have above : (roundShift tmp 16 : ℚ) * inv / 2 ^ 16 ≤ (tmp / 2 ^ 16 + 1 / 2) * inv / 2 ^ 16 := by gcongr
    have split_low : ((tmp : ℚ) / 2 ^ 16 - 1 / 2) * inv / 2 ^ 16 = tmp * inv / 2 ^ 32 - inv / 2 ^ 17 := by ring
    have split_high : ((tmp : ℚ) / 2 ^ 16 + 1 / 2) * inv / 2 ^ 16 = tmp * inv / 2 ^ 32 + inv / 2 ^ 17 := by ring
    constructor <;> linarith [recip.1, recip.2]
  · have low := roundShift.lower (x := tmp * inv) (k := 32) (by decide)
    have high := roundShift.upper (x := tmp * inv) (k := 32) (by decide)
    push_cast at low high
    have extra : (0 : ℚ) ≤ (inv : ℚ) / 2 ^ 17 := by positivity
    constructor <;> linarith [recip.1, recip.2]

/-- At the switch the short schedule gives exactly the inverse, and the long one no less. -/
theorem scaled_mono {less more inv : Nat} (le : less ≤ more) : scaled less inv ≤ scaled more inv := by
  unfold scaled
  by_cases shortMore : wmultConst < more
  · by_cases shortLess : wmultConst < less
    · rw [if_pos shortLess, if_pos shortMore]
      exact roundShift.mono (Nat.mul_le_mul_right _ (roundShift.mono le))
    · rw [if_neg shortLess, if_pos shortMore]
      calc roundShift (less * inv) 32 ≤ roundShift (2 ^ 32 * inv) 32 :=
            roundShift.mono (Nat.mul_le_mul_right _ (not_lt.mp shortLess))
        _ = inv := roundShift.pow_mul (by decide) inv
        _ = roundShift (2 ^ 16 * inv) 16 := (roundShift.pow_mul (by decide) inv).symm
        _ ≤ roundShift (roundShift more 16 * inv) 16 := by
          refine roundShift.mono (Nat.mul_le_mul_right _ ?_)
          calc 2 ^ 16 = roundShift (2 ^ 16 * 2 ^ 16) 16 := (roundShift.pow_mul (by decide) _).symm
            _ ≤ roundShift more 16 := roundShift.mono (by unfold wmultConst at shortMore; omega)
  · rw [if_neg (fun shortLess => shortMore (shortLess.trans_le le)), if_neg shortMore]
    exact roundShift.mono (Nat.mul_le_mul_right _ le)

/-- The quotient bound keeps the long schedule inside 64 bits; the short one always is. -/
theorem scaleIntermediates_fits (low : 2 ≤ lw.weight) (high : lw.weight ≤ wmultConst) (cached : lw.Cached)
    (product : deltaExec * weight < 2 ^ 63) (quotient : (deltaExec * weight : ℕ) / (lw.weight : ℚ) < 2 ^ 47) :
    ∀ x ∈ scaleIntermediates deltaExec weight lw, x < 2 ^ 64 := by
  simp only [scaleIntermediates]
  rw [cached.inv low high]
  have inv_le := recip_le low
  have inv_mul : lw.weight * (wmultConst / lw.weight) ≤ 2 ^ 32 := Nat.mul_div_le wmultConst lw.weight
  have below : deltaExec * weight < 2 ^ 47 * lw.weight := by
    rw [div_lt_iff₀ (by exact_mod_cast (show 0 < lw.weight by omega))] at quotient
    exact_mod_cast quotient
  set tmp := deltaExec * weight
  set inv := wmultConst / lw.weight
  split
  · have rounded : 2 ^ 16 * roundShift tmp 16 ≤ tmp + 2 ^ 15 := Nat.mul_div_le _ _
    have long : 2 ^ 16 * (roundShift tmp 16 * inv) ≤ 2 ^ 47 * 2 ^ 32 + 2 ^ 15 * 2 ^ 31 :=
      calc 2 ^ 16 * (roundShift tmp 16 * inv) = 2 ^ 16 * roundShift tmp 16 * inv := (Nat.mul_assoc _ _ _).symm
        _ ≤ (tmp + 2 ^ 15) * inv := Nat.mul_le_mul_right _ rounded
        _ ≤ (2 ^ 47 * lw.weight + 2 ^ 15) * inv := Nat.mul_le_mul_right _ (by omega)
        _ = 2 ^ 47 * (lw.weight * inv) + 2 ^ 15 * inv := by ring
        _ ≤ _ := Nat.add_le_add (Nat.mul_le_mul_left _ inv_mul) (Nat.mul_le_mul_left _ inv_le)
    intro x member
    simp only [List.mem_cons, List.not_mem_nil, or_false] at member
    omega
  · rename_i short
    have brief : tmp * inv ≤ 2 ^ 32 * 2 ^ 31 := Nat.mul_le_mul (not_lt.mp short) inv_le
    intro x member
    simp only [List.mem_cons, List.not_mem_nil, or_false] at member
    omega

/-- What fits for a time fits for a shorter one. -/
theorem scaleIntermediates_mono {less : Nat} (low : 2 ≤ lw.weight) (high : lw.weight ≤ wmultConst)
    (cached : lw.Cached) (le : less ≤ deltaExec)
    (fits : ∀ x ∈ scaleIntermediates deltaExec weight lw, x < 2 ^ 64) :
    ∀ x ∈ scaleIntermediates less weight lw, x < 2 ^ 64 := by
  have inv_le : lw.cacheInv.invWeight ≤ 2 ^ 31 := (cached.inv low high).trans_le (recip_le low)
  have products : less * weight ≤ deltaExec * weight := Nat.mul_le_mul_right _ le
  simp only [scaleIntermediates] at fits ⊢
  intro x member
  by_cases long : wmultConst < less * weight
  · rw [if_pos (long.trans_le products)] at fits
    rw [if_pos long] at member
    have first := fits (deltaExec * weight + 2 ^ 15) (by simp)
    have third := fits (roundShift (deltaExec * weight) 16 * lw.cacheInv.invWeight + 2 ^ 15) (by simp)
    have rounded : roundShift (less * weight) 16 * lw.cacheInv.invWeight ≤
        roundShift (deltaExec * weight) 16 * lw.cacheInv.invWeight :=
      Nat.mul_le_mul_right _ (roundShift.mono products)
    simp only [List.mem_cons, List.not_mem_nil, or_false] at member
    omega
  · rw [if_neg long] at member
    have brief : less * weight * lw.cacheInv.invWeight ≤ 2 ^ 32 * 2 ^ 31 := Nat.mul_le_mul (not_lt.mp long) inv_le
    have short : less * weight ≤ 2 ^ 32 := not_lt.mp long
    simp only [List.mem_cons, List.not_mem_nil, or_false] at member
    omega

theorem scaleByWeight_rounded (low : 2 ≤ lw.weight) (high : lw.weight ≤ wmultConst) (cached : lw.Cached)
    (fits : ∀ x ∈ scaleIntermediates deltaExec weight lw, x < 2 ^ 64) :
    (scaleByWeight deltaExec weight lw).1 = scaled (deltaExec * weight) (wmultConst / lw.weight) := by
  rw [scaleByWeight_of_fits fits, cached.inv low high]

/-- `scale_by_weight` on a 64-bit machine, for every weight from `2` to `2^32`. -/
theorem scale_by_weight_accurate (deltaExec weight : Nat) (lw : LoadWeight) (low : 2 ≤ lw.weight)
    (high : lw.weight ≤ 2 ^ 32) (cached : lw.Cached) (product : deltaExec * weight < 2 ^ 63)
    (quotient : (deltaExec * weight : ℕ) / (lw.weight : ℚ) < 2 ^ 47) :
    (∀ x ∈ scaleIntermediates deltaExec weight lw, x < 2 ^ 64) ∧
      (-(((deltaExec * weight : ℕ) : ℚ) / 2 ^ 32 + (2 ^ 32 / lw.weight : ℕ) / 2 ^ 17 + 1 / 2) ≤
          (scaleByWeight deltaExec weight lw).1 - (deltaExec * weight : ℕ) / (lw.weight : ℚ) ∧
        ((scaleByWeight deltaExec weight lw).1 : ℚ) - (deltaExec * weight : ℕ) / (lw.weight : ℚ) ≤
          (2 ^ 32 / lw.weight : ℕ) / 2 ^ 17 + 1 / 2) ∧
      (∀ lw' : LoadWeight, lw'.weight = lw.weight → lw'.Cached →
        (scaleByWeight deltaExec weight lw').1 = (scaleByWeight deltaExec weight lw).1) ∧
      ∀ less ≤ deltaExec, (scaleByWeight less weight lw).1 ≤ (scaleByWeight deltaExec weight lw).1 := by
  have fits := scaleIntermediates_fits low high cached product quotient
  have result := scaleByWeight_rounded low high cached fits
  refine ⟨fits, ?_, fun lw' same cached' => ?_, fun less le => ?_⟩
  · rw [result]
    exact scaled_bounds (deltaExec * weight) (by omega)
  · have fits' : ∀ x ∈ scaleIntermediates deltaExec weight lw', x < 2 ^ 64 := by
      refine scaleIntermediates_fits ?_ ?_ cached' product ?_ <;> rw [same] <;> assumption
    rw [scaleByWeight_rounded (same ▸ low) (same ▸ high) cached' fits', result, same]
  · rw [result, scaleByWeight_rounded low high cached (scaleIntermediates_mono low high cached le fits)]
    exact scaled_mono (Nat.mul_le_mul_right _ le)

theorem scale_by_weight_accurate_three :
    -(((6000000 * 1024 : ℕ) : ℚ) / 2 ^ 32 + (2 ^ 32 / 3 : ℕ) / 2 ^ 17 + 1 / 2) ≤
      (scaleByWeight 6000000 1024 { weight := 3 }).1 - (6000000 * 1024 : ℕ) / (3 : ℚ) := by
  have accurate := scale_by_weight_accurate 6000000 1024 { weight := 3 } (by decide) (by decide) (.inl rfl)
    (by decide) (by norm_num)
  exact_mod_cast accurate.2.1.1

end scale

end SfqSched
