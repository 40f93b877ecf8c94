import SfqSched.RoundShift
import Mathlib.Logic.Function.Basic
import Mathlib.Logic.Function.Iterate
import Mathlib.Tactic.IntervalCases

namespace SfqSched
open Function

/-- `CPU_LOAD_IDX_MAX` and `DECAY_SHIFT`. -/
def cpuLoadIdxMax : Nat := 5
def decayShift : Nat := 7

def decayToZeroTicks : List Nat := [0, 8, 32, 64, 128]

def powerOf2DecayFactors : List (List Nat) :=
  [[0, 0, 0, 0, 0, 0, 0, 0],
   [64, 32, 8, 0, 0, 0, 0, 0],
   [96, 72, 40, 12, 1, 0, 0, 0],
   [112, 98, 75, 43, 15, 1, 0, 0],
   [120, 112, 98, 76, 45, 16, 2, 0]]

/-- The loop of `decay_cpu_load_missed`; `none` is an index outside the row. -/
def decayLoop (row : List Nat) (load missedUpdates j : Nat) : Option Nat :=
  if missedUpdates = 0 then some load
  else if missedUpdates % 2 = 1 then
    (row[j]?).bind fun factor =>
      decayLoop row (load * factor % 2 ^ 64 / 2 ^ decayShift) (missedUpdates / 2) (j + 1)
  else decayLoop row load (missedUpdates / 2) (j + 1)

/-- `decay_cpu_load_missed`; `none` is an index outside a table. -/
def decayCpuLoadMissed (load missedUpdates idx : Nat) : Option Nat :=
  if missedUpdates = 0 then some load
  else
    (decayToZeroTicks[idx]?).bind fun zeroTicks =>
      if zeroTicks ≤ missedUpdates then some 0
      else if idx = 1 then some (load >>> missedUpdates)
      else (powerOf2DecayFactors[idx]?).bind fun row => decayLoop row load missedUpdates 0

/-- `rq->cpu_load`. -/
abbrev CpuLoad := Fin cpuLoadIdxMax → Nat

/-- The store of one round of `__update_cpu_load`. -/
def blendLoad (i scale oldLoad curLoad : Nat) : Nat :=
  let newLoad := if oldLoad < curLoad then (curLoad + (scale - 1)) % 2 ^ 64 else curLoad
  (oldLoad * (scale - 1) + newLoad) % 2 ^ 64 / 2 ^ i

/-- The loop of `__update_cpu_load`. -/
def updateCpuLoadLoop (curLoad pendingUpdates i scale : Nat) (cpuLoad : CpuLoad) : Option CpuLoad :=
  if h : i < cpuLoadIdxMax then
    (decayCpuLoadMissed (cpuLoad ⟨i, h⟩) ((pendingUpdates + 2 ^ 64 - 1) % 2 ^ 64) i).bind fun oldLoad =>
      updateCpuLoadLoop curLoad pendingUpdates (i + 1) (scale + scale)
        (update cpuLoad ⟨i, h⟩ (blendLoad i scale oldLoad curLoad))
  else some cpuLoad

/-- `__update_cpu_load`. -/
def rawUpdateCpuLoad (cpuLoad : CpuLoad) (curLoad pendingUpdates : Nat) : Option CpuLoad :=
  updateCpuLoadLoop curLoad pendingUpdates 1 2 (update cpuLoad ⟨0, by decide⟩ curLoad)

section decay
variable {row : List Nat} {load missed j k f : Nat} {a : ℚ}

theorem decayLoop_done : decayLoop row load 0 j = some load := by
  unfold decayLoop
  rfl

/-- Enough factors for the digits, and a factor never lets the load grow. -/
theorem decayLoop_le (load : Nat) (small : ∀ r ∈ row, r ≤ 128) (digits : missed < 2 ^ k) (room : j + k ≤ row.length) :
    ∃ f, decayLoop row load missed j = some f ∧ f ≤ load := by
  induction k generalizing load missed j with
  | zero =>
    obtain rfl : missed = 0 := by omega
    exact ⟨load, decayLoop_done, le_rfl⟩
  | succ k ih =>
    unfold decayLoop
    split
    · exact ⟨load, rfl, le_rfl⟩
    · split
      · have inside : j < row.length := by omega
        rw [List.getElem?_eq_getElem inside, Option.bind_some]
        have half : missed / 2 < 2 ^ k := by omega
        have next : j + 1 + k ≤ row.length := by omega
        obtain ⟨f, run, le⟩ := ih (load * row[j] % 2 ^ 64 / 2 ^ decayShift) half next
        have bound : load * row[j] ≤ load * 128 := Nat.mul_le_mul_left _ (small _ (List.getElem_mem inside))
        have cut : load * row[j] % 2 ^ 64 ≤ load * row[j] := Nat.mod_le _ _
        refine ⟨f, run, le.trans ?_⟩
        unfold decayShift
        omega
      · exact ih load (by omega) (by omega)

/-- The factors are the powers of `a`, cut after seven binary digits. -/
def Factors (a : ℚ) (row : List Nat) : Prop :=
  ∀ j (h : j < row.length), (row[j] : ℚ) ≤ 128 * a ^ 2 ^ j ∧ 128 * a ^ 2 ^ j ≤ row[j] + 1

/-- Every digit costs one cut of the factor and one of the product. -/
theorem decayLoop_near (nonneg : 0 ≤ a) (le_one : a ≤ 1) (factors : Factors a row) (small : ∀ r ∈ row, r ≤ 128)
    (digits : missed < 2 ^ k) (fits : load < 2 ^ 57) (run : decayLoop row load missed j = some f) :
    0 ≤ (load : ℚ) * (a ^ 2 ^ j) ^ missed - f ∧ (load : ℚ) * (a ^ 2 ^ j) ^ missed - f ≤ k * (load / 128 + 1) := by
  induction k generalizing load missed j with
  | zero =>
    have none : missed = 0 := by omega
    subst none
    rw [decayLoop_done] at run
    cases run
    simp
  | succ k ih =>
    have power : (a ^ 2 ^ (j + 1)) ^ (missed / 2) = (a ^ 2 ^ j) ^ (2 * (missed / 2)) := by
      rw [← pow_mul, ← pow_mul, pow_succ, Nat.mul_assoc]
    have grow : (k : ℚ) * (load / 128 + 1) ≤ (k + 1 : ℕ) * (load / 128 + 1) := by
      push_cast
      have pos : (0 : ℚ) ≤ load / 128 + 1 := by positivity
      linarith
    unfold decayLoop at run
    split at run
    · rename_i none
      cases run
      subst none
      simp only [pow_zero, mul_one, sub_self, le_refl, true_and]
      positivity
    · split at run
      · rename_i odd
        obtain ⟨factor, at_j, run⟩ := Option.bind_eq_some_iff.mp run
        obtain ⟨inside, rfl⟩ := List.getElem?_eq_some_iff.mp at_j
        have small_j := small _ (List.getElem_mem inside)
        obtain ⟨fact_low, fact_high⟩ := factors j inside
        generalize row[j] = factor at *
        have bound : load * factor ≤ load * 128 := Nat.mul_le_mul_left _ small_j
        rw [Nat.mod_eq_of_lt (by omega)] at run
        have le : load * factor / 2 ^ decayShift ≤ load := by
          unfold decayShift
          omega
        have shrunk : ((load * factor / 2 ^ decayShift : ℕ) : ℚ) ≤ load := Nat.cast_le.mpr le
        obtain ⟨low, high⟩ := ih (by omega) (le.trans_lt fits) run
        rw [power] at low high
        have split_power : (a ^ 2 ^ j) ^ missed = a ^ 2 ^ j * (a ^ 2 ^ j) ^ (2 * (missed / 2)) := by
          rw [← pow_succ']
          congr 1
          omega
        rw [split_power]
        have tail_nonneg : (0 : ℚ) ≤ (a ^ 2 ^ j) ^ (2 * (missed / 2)) := by positivity
        have tail_le : (a ^ 2 ^ j) ^ (2 * (missed / 2)) ≤ 1 := pow_le_one₀ (by positivity) (pow_le_one₀ nonneg le_one)
        generalize (a ^ 2 ^ j) ^ (2 * (missed / 2)) = tail at *
        have cut_le : ((load * factor / 2 ^ decayShift : ℕ) : ℚ) ≤ load * factor / 128 := by
          have floor : ((load * factor / 2 ^ decayShift : ℕ) : ℚ) ≤ (load * factor : ℕ) / (2 ^ decayShift : ℕ) :=
            Nat.cast_div_le
          norm_num [decayShift] at floor ⊢
          exact floor
        have le_cut : (load : ℚ) * factor / 128 - 1 ≤ (load * factor / 2 ^ decayShift : ℕ) := by
          have floor : load * factor ≤ 128 * (load * factor / 2 ^ decayShift) + 128 := by
            unfold decayShift
            omega
          have floor' : (load : ℚ) * factor ≤ 128 * (load * factor / 2 ^ decayShift : ℕ) + 128 := by
            exact_mod_cast floor
          linarith
        generalize ((load * factor / 2 ^ decayShift : ℕ) : ℚ) = shorter at *
        have load_nonneg : (0 : ℚ) ≤ load := Nat.cast_nonneg load
        have above : (load : ℚ) * factor / 128 ≤ load * a ^ 2 ^ j := by
          rw [div_le_iff₀ (by norm_num), mul_assoc]
          exact mul_le_mul_of_nonneg_left (by linarith) load_nonneg
        have below : (load : ℚ) * a ^ 2 ^ j ≤ load * factor / 128 + load / 128 := by
          rw [← add_div, le_div_iff₀ (by norm_num), ← mul_add_one, mul_assoc]
          exact mul_le_mul_of_nonneg_left (by linarith) load_nonneg
        have gap : 0 ≤ load * a ^ 2 ^ j - shorter := by linarith
        have gap_le : load * a ^ 2 ^ j - shorter ≤ load / 128 + 1 := by linarith
        have gap_tail : (load * a ^ 2 ^ j - shorter) * tail ≤ load / 128 + 1 :=
          (mul_le_of_le_one_right gap tail_le).trans gap_le
        have rest : (k : ℚ) * (shorter / 128 + 1) ≤ k * (load / 128 + 1) := by
          gcongr
        have whole : load * (a ^ 2 ^ j * tail) - f = (load * a ^ 2 ^ j - shorter) * tail + (shorter * tail - f) := by ring
        rw [whole]
        have tail_part := mul_nonneg gap tail_nonneg
        push_cast
        constructor <;> linarith
      · rename_i even
        have same : 2 * (missed / 2) = missed := by omega
        obtain ⟨low, high⟩ := ih (by omega) fits run
        rw [power, same] at low high
        exact ⟨low, high.trans grow⟩

theorem factors_two : Factors (3 / 4) [96, 72, 40, 12, 1, 0, 0, 0] := by
  intro j inside
  have bound : j < 8 := inside
  interval_cases j <;> norm_num

theorem factors_three : Factors (7 / 8) [112, 98, 75, 43, 15, 1, 0, 0] := by
  intro j inside
  have bound : j < 8 := inside
  interval_cases j <;> norm_num

theorem factors_four : Factors (15 / 16) [120, 112, 98, 76, 45, 16, 2, 0] := by
  intro j inside
  have bound : j < 8 := inside
  interval_cases j <;> norm_num

/-- Dropping the load at the cut-off costs less than the precision of the table. -/
theorem cutoff_near {cutoff n : Nat} (load : Nat) (nonneg : 0 ≤ a) (le_one : a ≤ 1) (late : cutoff ≤ n)
    (faded : a ^ cutoff ≤ 7 / 128) :
    0 ≤ (load : ℚ) * a ^ n - (0 : ℕ) ∧ (load : ℚ) * a ^ n - (0 : ℕ) ≤ 7 * load / 128 + 7 := by
  have load_nonneg : (0 : ℚ) ≤ load := Nat.cast_nonneg load
  have power : a ^ n ≤ 7 / 128 := (pow_le_pow_of_le_one nonneg le_one late).trans faded
  have product : (load : ℚ) * a ^ n ≤ load * (7 / 128) := mul_le_mul_of_nonneg_left power load_nonneg
  constructor
  · simp only [Nat.cast_zero, sub_zero]
    positivity
  · simp only [Nat.cast_zero, sub_zero]
    linarith

/-- The table path of `decay_cpu_load_missed`. -/
theorem decay_table_near {n : Nat} (load idx cutoff : Nat) (nonneg : 0 ≤ a) (le_one : a ≤ 1) (factors : Factors a row)
    (small : ∀ r ∈ row, r ≤ 128) (room : row.length = 8) (faded : a ^ cutoff ≤ 7 / 128) (short : cutoff ≤ 128)
    (ticks : decayToZeroTicks[idx]? = some cutoff) (table : powerOf2DecayFactors[idx]? = some row)
    (slow : idx ≠ 1) (missed : n ≠ 0) (fits : load < 2 ^ 56) :
    ∃ f, decayCpuLoadMissed load n idx = some f ∧ 0 ≤ (load : ℚ) * a ^ n - f ∧
      (load : ℚ) * a ^ n - f ≤ 7 * load / 128 + 7 := by
  unfold decayCpuLoadMissed
  rw [if_neg missed, ticks, Option.bind_some]
  by_cases late : cutoff ≤ n
  · rw [if_pos late]
    exact ⟨0, rfl, cutoff_near load nonneg le_one late faded⟩
  · rw [if_neg late, if_neg slow, table, Option.bind_some]
    have digits : n < 2 ^ 7 := by omega
    obtain ⟨f, run, _⟩ := decayLoop_le (j := 0) load small digits (by omega)
    obtain ⟨low, high⟩ := decayLoop_near nonneg le_one factors small digits (by omega) run
    simp only [pow_zero, pow_one] at low high
    refine ⟨f, run, low, high.trans_eq ?_⟩
    push_cast
    ring

/-- One halving with truncation after the other is one shift. -/
theorem iterate_half (load n : Nat) : (fun load => load / 2)^[n] load = load / 2 ^ n := by
  induction n generalizing load with
  | zero => simp
  | succ n ih => rw [Function.iterate_succ_apply, ih, Nat.div_div_eq_div_mul, pow_succ']

theorem shift_near (load n : Nat) :
    0 ≤ (load : ℚ) * (1 / 2) ^ n - (load >>> n : ℕ) ∧ (load : ℚ) * (1 / 2) ^ n - (load >>> n : ℕ) ≤ 7 * load / 128 + 7 := by
  have floor : (load : ℚ) * (1 / 2) ^ n - (load >>> n : ℕ) = load / 2 ^ n - (load / 2 ^ n : ℕ) := by
    rw [Nat.shiftRight_eq_div_pow, one_div, inv_pow, div_eq_mul_inv]
  have low : ((load / 2 ^ n : ℕ) : ℚ) ≤ (load : ℚ) / (2 ^ n : ℕ) := Nat.cast_div_le
  have high := natDiv_lower load (2 ^ n) (Nat.two_pow_pos n)
  push_cast at low high
  have load_nonneg : (0 : ℚ) ≤ load := Nat.cast_nonneg load
  rw [floor]
  constructor <;> linarith

/-- The missed ticks of `decay_cpu_load_missed` against as many exact decays. -/
theorem decay_cpu_load_missed_accurate (load n idx : Nat) (fits : load < 2 ^ 56) (known : 1 ≤ idx ∧ idx ≤ 4) :
    ∃ f, decayCpuLoadMissed load n idx = some f ∧
      0 ≤ (load : ℚ) * ((2 ^ idx - 1) / 2 ^ idx) ^ n - f ∧
      (load : ℚ) * ((2 ^ idx - 1) / 2 ^ idx) ^ n - f ≤ 7 * load / 128 + 7 ∧
      (idx = 1 → n < 8 → f = (fun load => load / 2)^[n] load) := by
  by_cases none : n = 0
  · subst none
    refine ⟨load, by simp [decayCpuLoadMissed], by simp, ?_, fun _ _ => rfl⟩
    simp only [pow_zero, mul_one, sub_self]
    positivity
  have cases : idx = 1 ∨ idx = 2 ∨ idx = 3 ∨ idx = 4 := by omega
  rcases cases with rfl | rfl | rfl | rfl
  · unfold decayCpuLoadMissed
    rw [if_neg none]
    have factor : ((2 ^ 1 - 1) / 2 ^ 1 : ℚ) = 1 / 2 := by norm_num
    rw [factor]
    simp only [decayToZeroTicks, List.getElem?_cons_succ, List.getElem?_cons_zero, Option.bind_some]
    by_cases late : 8 ≤ n
    · obtain ⟨low, high⟩ := cutoff_near (a := 1 / 2) load (by norm_num) (by norm_num) late (by norm_num)
      exact ⟨0, if_pos late, low, high, fun _ early => absurd early (by omega)⟩
    · obtain ⟨low, high⟩ := shift_near load n
      refine ⟨load >>> n, by simp [late], low, high, fun _ _ => ?_⟩
      rw [iterate_half, Nat.shiftRight_eq_div_pow]
  · obtain ⟨f, run, low, high⟩ := decay_table_near (a := 3 / 4) load 2 32 (by norm_num) (by norm_num) factors_two
      (by decide) rfl (by norm_num) (by norm_num) rfl rfl (by decide) none fits
    norm_num at low high ⊢
    exact ⟨f, run, low, high⟩
  · obtain ⟨f, run, low, high⟩ := decay_table_near (a := 7 / 8) load 3 64 (by norm_num) (by norm_num) factors_three
      (by decide) rfl (by norm_num) (by norm_num) rfl rfl (by decide) none fits
    norm_num at low high ⊢
    exact ⟨f, run, low, high⟩
  · obtain ⟨f, run, low, high⟩ := decay_table_near (a := 15 / 16) load 4 128 (by norm_num) (by norm_num) factors_four
      (by decide) rfl (by norm_num) (by norm_num) rfl rfl (by decide) none fits
    norm_num at low high ⊢
    exact ⟨f, run, low, high⟩

theorem decay_cpu_load_missed_accurate_busy :
    (2 ^ 20 : ℚ) * ((2 ^ 3 - 1) / 2 ^ 3) ^ 37 - (decayCpuLoadMissed (2 ^ 20) 37 3).getD 0 ≤ 7 * 2 ^ 20 / 128 + 7 := by
  obtain ⟨f, run, _, high, _⟩ := decay_cpu_load_missed_accurate (2 ^ 20) 37 3 (by decide) (by decide)
  rw [run, Option.getD_some]
  exact_mod_cast high

theorem decayCpuLoadMissed_le {idx : Nat} (load n : Nat) (known : 1 ≤ idx ∧ idx ≤ 4) :
    ∃ f, decayCpuLoadMissed load n idx = some f ∧ f ≤ load := by
  unfold decayCpuLoadMissed
  split
  · exact ⟨load, rfl, le_rfl⟩
  have cases : idx = 1 ∨ idx = 2 ∨ idx = 3 ∨ idx = 4 := by omega
  have table {row : List Nat} {cutoff : Nat} (short : cutoff ≤ 2 ^ 7) (small : ∀ r ∈ row, r ≤ 128) (room : row.length = 8) :
      ∃ f, (if cutoff ≤ n then some 0 else decayLoop row load n 0) = some f ∧ f ≤ load := by
    split
    · exact ⟨0, rfl, Nat.zero_le _⟩
    · exact decayLoop_le (k := 7) load small (by omega) (by omega)
  rcases cases with rfl | rfl | rfl | rfl
  · simp only [decayToZeroTicks, List.getElem?_cons_succ, List.getElem?_cons_zero, Option.bind_some]
    split
    · exact ⟨0, rfl, Nat.zero_le _⟩
    · exact ⟨load >>> n, rfl, Nat.shiftRight_le load n⟩
  · exact table (by decide) (by decide) rfl
  · exact table (by decide) (by decide) rfl
  · exact table (by decide) (by decide) rfl

end decay

section update
variable {i old cur pending : Nat} {c : CpuLoad}

theorem blendLoad_of_fits (index : 1 ≤ i ∧ i ≤ 4) (oldSmall : old < 2 ^ 59) (curSmall : cur < 2 ^ 59) :
    blendLoad i (2 ^ i) old cur =
      (old * (2 ^ i - 1) + if old < cur then cur + (2 ^ i - 1) else cur) / 2 ^ i := by
  have scale : 2 ^ i ≤ 2 ^ 4 := Nat.pow_le_pow_right (by decide) index.2
  have product : old * (2 ^ i - 1) ≤ old * 15 := Nat.mul_le_mul_left _ (by omega)
  have up : (cur + (2 ^ i - 1)) % 2 ^ 64 = cur + (2 ^ i - 1) := Nat.mod_eq_of_lt (by omega)
  unfold blendLoad
  rw [up]
  simp only
  rw [Nat.mod_eq_of_lt]
  split <;> omega

/-- One round neither passes the current load nor stays where it is. -/
theorem blendLoad_toward (index : 1 ≤ i ∧ i ≤ 4) (oldSmall : old < 2 ^ 59) (curSmall : cur < 2 ^ 59) :
    (old < cur → old < blendLoad i (2 ^ i) old cur ∧ blendLoad i (2 ^ i) old cur ≤ cur) ∧
      (cur < old → cur ≤ blendLoad i (2 ^ i) old cur ∧ blendLoad i (2 ^ i) old cur < old) ∧
      (old = cur → blendLoad i (2 ^ i) old cur = cur) := by
  have cases : i = 1 ∨ i = 2 ∨ i = 3 ∨ i = 4 := by omega
  rw [blendLoad_of_fits index oldSmall curSmall]
  rcases cases with rfl | rfl | rfl | rfl <;> (split <;> omega)

theorem blendLoad_le (index : 1 ≤ i ∧ i ≤ 4) (oldSmall : old < 2 ^ 59) (curSmall : cur < 2 ^ 59) :
    blendLoad i (2 ^ i) old cur ≤ max old cur := by
  obtain ⟨below, above, same⟩ := blendLoad_toward index oldSmall curSmall
  rcases lt_trichotomy old cur with lt | eq | gt
  · exact (below lt).2.trans (le_max_right ..)
  · exact (same eq).trans_le (le_max_right ..)
  · exact (above gt).2.le.trans (le_max_left ..)

/-- Every round reads and writes its own entry. -/
theorem updateCpuLoadLoop_entries (cur pending rounds : Nat) (bound : i + rounds = cpuLoadIdxMax) (start : 1 ≤ i) :
    ∃ l, updateCpuLoadLoop cur pending i (2 ^ i) c = some l ∧ (∀ j, j.val < i → l j = c j) ∧
      ∀ j, i ≤ j.val → ∃ old, decayCpuLoadMissed (c j) ((pending + 2 ^ 64 - 1) % 2 ^ 64) j = some old ∧
        old ≤ c j ∧ l j = blendLoad j (2 ^ j.val) old cur := by
  induction rounds generalizing i c with
  | zero =>
    unfold updateCpuLoadLoop
    rw [dif_neg (by omega)]
    exact ⟨c, rfl, fun _ _ => rfl, fun j le => absurd j.isLt (by omega)⟩
  | succ rounds ih =>
    have inside : i < cpuLoadIdxMax := by omega
    have index : 1 ≤ i ∧ i ≤ 4 := ⟨start, by unfold cpuLoadIdxMax at inside; omega⟩
    obtain ⟨old, decayed, le⟩ :=
      decayCpuLoadMissed_le (c ⟨i, inside⟩) ((pending + 2 ^ 64 - 1) % 2 ^ 64) index
    unfold updateCpuLoadLoop
    rw [dif_pos inside, decayed, Option.bind_some, ← Nat.mul_two, ← pow_succ]
    obtain ⟨l, run, before, after⟩ :=
      @ih (i + 1) (update c ⟨i, inside⟩ (blendLoad i (2 ^ i) old cur)) (by omega) (by omega)
    refine ⟨l, run, fun j less => ?_, fun j le_j => ?_⟩
    · have other : j ≠ ⟨i, inside⟩ := fun same => absurd (congrArg Fin.val same) less.ne
      rw [before j (by omega), update_of_ne other]
    · by_cases here : j = ⟨i, inside⟩
      · subst here
        refine ⟨old, decayed, le, ?_⟩
        rw [before _ (Nat.lt_succ_self i), update_self]
      · have later : i + 1 ≤ j.val := by
          have apart : j.val ≠ i := fun same => here (Fin.ext same)
          omega
        obtain ⟨old', decayed', le', value⟩ := after j later
        rw [update_of_ne here] at decayed' le'
        exact ⟨old', decayed', le', value⟩

theorem rawUpdateCpuLoad_entries (c : CpuLoad) (cur pending : Nat) :
    ∃ l, rawUpdateCpuLoad c cur pending = some l ∧ l ⟨0, by decide⟩ = cur ∧
      ∀ j : Fin cpuLoadIdxMax, 1 ≤ j.val →
        ∃ old, decayCpuLoadMissed (c j) ((pending + 2 ^ 64 - 1) % 2 ^ 64) j = some old ∧ old ≤ c j ∧
          l j = blendLoad j (2 ^ j.val) old cur := by
  obtain ⟨l, run, before, after⟩ := updateCpuLoadLoop_entries (i := 1)
    (c := update c ⟨0, by decide⟩ cur) cur pending 4 rfl le_rfl
  refine ⟨l, run, ?_, fun j later => ?_⟩
  · rw [before _ Nat.one_pos, update_self]
  · obtain ⟨old, decayed, le, value⟩ := after j later
    have other : j ≠ ⟨0, by decide⟩ := by
      rintro rfl
      exact absurd later (by decide)
    rw [update_of_ne other] at decayed le
    exact ⟨old, decayed, le, value⟩

/-- A tick without missed updates. -/
theorem rawUpdateCpuLoad_one (small : ∀ i, c i < 2 ^ 59) (curSmall : cur < 2 ^ 59) :
    ∃ l, rawUpdateCpuLoad c cur 1 = some l ∧ (∀ i, l i < 2 ^ 59) ∧ ∀ i : Fin cpuLoadIdxMax, 1 ≤ i.val →
      (c i < cur → c i < l i ∧ l i ≤ cur) ∧ (cur < c i → cur ≤ l i ∧ l i < c i) ∧ (c i = cur → l i = cur) := by
  obtain ⟨l, run, first, entries⟩ := rawUpdateCpuLoad_entries c cur 1
  have toward (i : Fin cpuLoadIdxMax) (later : 1 ≤ i.val) :
      (c i < cur → c i < l i ∧ l i ≤ cur) ∧ (cur < c i → cur ≤ l i ∧ l i < c i) ∧ (c i = cur → l i = cur) := by
    obtain ⟨old, decayed, _, value⟩ := entries i later
    have same : c i = old := Option.some.inj decayed
    rw [value, ← same]
    exact blendLoad_toward ⟨later, Nat.le_of_lt_succ i.isLt⟩ (small i) curSmall
  refine ⟨l, run, fun i => ?_, toward⟩
  by_cases later : 1 ≤ i.val
  · obtain ⟨below, above, same⟩ := toward i later
    have old := small i
    omega
  · have here : i = ⟨0, by decide⟩ := Fin.ext (Nat.lt_one_iff.mp (not_le.mp later))
    rw [here, first]
    exact curSmall

/-- Ticks under one load, none of them missed. -/
def steadyTicks (cur : Nat) : Nat → CpuLoad → Option CpuLoad
  | 0, c => some c
  | ticks + 1, c => (rawUpdateCpuLoad c cur 1).bind (steadyTicks cur ticks)

theorem steadyTicks_reach (small : ∀ i, c i < 2 ^ 59) (curSmall : cur < 2 ^ 59) (ticks : Nat) :
    ∃ l, steadyTicks cur ticks c = some l ∧
      ∀ i : Fin cpuLoadIdxMax, 1 ≤ i.val → ((c i : Int) - cur).natAbs ≤ ticks → l i = cur := by
  induction ticks generalizing c with
  | zero => exact ⟨c, rfl, fun i _ near => by omega⟩
  | succ ticks ih =>
    obtain ⟨l, run, still, toward⟩ := rawUpdateCpuLoad_one small curSmall
    obtain ⟨m, rest, reached⟩ := ih still
    refine ⟨m, by rw [steadyTicks, run, Option.bind_some, rest], fun i later near => reached i later ?_⟩
    obtain ⟨below, above, same⟩ := toward i later
    omega

/-- The load averages follow the load: never above both, nearer at every tick, and there
after as many ticks as the distance. -/
theorem cpu_load_converges (c : CpuLoad) (cur : Nat) (small : ∀ i, c i < 2 ^ 59) (curSmall : cur < 2 ^ 59) :
    (∀ pending, 1 ≤ pending → ∃ l, rawUpdateCpuLoad c cur pending = some l ∧
      ∀ i : Fin cpuLoadIdxMax, 1 ≤ i.val → l i ≤ max (c i) cur) ∧
    (∃ l, rawUpdateCpuLoad c cur 1 = some l ∧ ∀ i : Fin cpuLoadIdxMax, 1 ≤ i.val →
      (c i < cur → c i < l i ∧ l i ≤ cur) ∧ (cur < c i → cur ≤ l i ∧ l i < c i) ∧ (c i = cur → l i = cur)) ∧
    ∀ ticks, ∃ l, steadyTicks cur ticks c = some l ∧
      ∀ i : Fin cpuLoadIdxMax, 1 ≤ i.val → ((c i : Int) - cur).natAbs ≤ ticks → l i = cur := by
  refine ⟨fun pending _ => ?_, ?_, steadyTicks_reach small curSmall⟩
  · obtain ⟨l, run, _, entries⟩ := rawUpdateCpuLoad_entries c cur pending
    refine ⟨l, run, fun i later => ?_⟩
    obtain ⟨old, _, le, value⟩ := entries i later
    rw [value]
    exact (blendLoad_le ⟨later, Nat.le_of_lt_succ i.isLt⟩ (le.trans_lt (small i)) curSmall).trans
      (max_le_max_right _ le)
  · obtain ⟨l, run, _, toward⟩ := rawUpdateCpuLoad_one small curSmall
    exact ⟨l, run, toward⟩

theorem cpu_load_converges_idle :
    ∃ l, steadyTicks 0 1024 (fun _ => 1024) = some l ∧ ∀ i : Fin cpuLoadIdxMax, 1 ≤ i.val → l i = 0 := by
  obtain ⟨l, run, reached⟩ := (cpu_load_converges (fun _ => 1024) 0 (by decide) (by decide)).2.2 1024
  exact ⟨l, run, fun i later => reached i later (by decide)⟩

end update
end SfqSched
