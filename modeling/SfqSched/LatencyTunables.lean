import SfqSched.Step
import Mathlib.Algebra.Order.Floor.Div
import Mathlib.Data.List.Infix

namespace SfqSched

/-- `sched_scaling` chooses by how much `pss_sched_init` multiplies the boot values. -/
def schedFactor (schedScaling : Int) (mpNcpus : Nat) : Nat :=
  if schedScaling = 0 then 1
  else if schedScaling = 1 then mpNcpus
  else 1 + Nat.log2 mpNcpus

/-- `pss_sched_init`. -/
def pssSchedInit (tun : Tunables) (schedScaling : Int) (mpNcpus : Nat) : Tunables :=
  { tun with
    schedLatency := tun.schedLatency * schedFactor schedScaling mpNcpus % 2 ^ 64
    schedMinGranularity := tun.schedMinGranularity * schedFactor schedScaling mpNcpus % 2 ^ 64 }

/-- A write to one of the two latency nodes of `kern.sched`. -/
inductive LatencyWrite
  | latency (v : BitVec 64)
  | minGranularity (v : BitVec 64)

namespace LatencyWrite

/-- The handler of the node; `none` is a division by zero. -/
def handler (tun : Tunables) : LatencyWrite → Option Tunables
  | latency v => sysctlSchedLatency tun v
  | minGranularity v => sysctlSchedMinGranularity tun v

/-- The error the handler returns. -/
def error (tun : Tunables) : LatencyWrite → Int
  | latency v => if intVal v < tun.schedMinGranularity then einval else 0
  | minGranularity v => if tun.schedLatency < intVal v then einval else 0

/-- The writes the handlers are right about: a latency whose low 32 bits are not a negative `int`,
a granularity whose low 32 bits are not all zero. -/
def Fits : LatencyWrite → Prop
  | latency v => v.toNat % 2 ^ 32 < 2 ^ 31
  | minGranularity v => v.toNat % 2 ^ 32 ≠ 0

end LatencyWrite

/-- Writes one after the other. -/
def latencyRun (tun : Tunables) (writes : List LatencyWrite) : Option Tunables :=
  writes.foldlM LatencyWrite.handler tun

structure Tunables.Consistent (tun : Tunables) : Prop where
  positive : 0 < tun.schedMinGranularity
  le : tun.schedMinGranularity ≤ tun.schedLatency
  bound : tun.schedLatency < 2 ^ 31
  nrLatency : tun.schedNrLatency = tun.schedLatency ⌈/⌉ tun.schedMinGranularity

/-- What one write should do. -/
def LatencyWrite.Right (tun : Tunables) (w : LatencyWrite) : Prop :=
  ∃ tun', w.handler tun = some tun' ∧ (w.error tun = 0 → tun'.Consistent) ∧ (w.error tun ≠ 0 → tun' = tun)

section writes
variable {tun : Tunables} {v : BitVec 64} {w : LatencyWrite}

theorem intVal_eq (v : BitVec 64) :
    intVal v = v.toNat % 2 ^ 32 + if v.toNat % 2 ^ 32 < 2 ^ 31 then 0 else 2 ^ 64 - 2 ^ 32 := by
  unfold intVal
  have low : v.toNat % 2 ^ 32 < 2 ^ 32 := Nat.mod_lt _ (by decide)
  rw [BitVec.toNat_signExtend]
  simp only [BitVec.truncate_eq_setWidth, BitVec.toNat_setWidth, BitVec.msb_eq_decide, decide_eq_true_eq]
  split <;> split <;> omega

theorem nrLatency_eq {latency granularity : Nat} (positive : 0 < granularity) (le : granularity ≤ latency)
    (bound : latency < 2 ^ 31) : nrLatency latency granularity = latency ⌈/⌉ granularity := by
  unfold nrLatency
  have sum : (latency + granularity + 2 ^ 64 - 1) % 2 ^ 64 = latency + granularity - 1 := by omega
  have quotient : (latency + granularity - 1) / granularity ≤ latency + granularity - 1 := Nat.div_le_self _ _
  rw [sum, Nat.ceilDiv_eq_add_pred_div, Nat.mod_eq_of_lt (by omega)]

theorem sysctlSchedLatency_accepts (accepted : ¬intVal v < tun.schedMinGranularity) (positive : 0 < tun.schedMinGranularity) :
    sysctlSchedLatency tun v = some { tun with
      schedLatency := intVal v, schedNrLatency := nrLatency (intVal v) tun.schedMinGranularity } := by
  unfold sysctlSchedLatency
  simp only [if_neg accepted, if_neg positive.ne']

theorem sysctlSchedMinGranularity_accepts (accepted : ¬tun.schedLatency < intVal v) (positive : intVal v ≠ 0) :
    sysctlSchedMinGranularity tun v = some { tun with
      schedMinGranularity := intVal v, schedNrLatency := nrLatency tun.schedLatency (intVal v) } := by
  unfold sysctlSchedMinGranularity
  simp only [if_neg accepted, if_neg positive]

/-- Of a consistent state the fitting writes are the ones that are handled right. -/
theorem LatencyWrite.right_iff (consistent : tun.Consistent) : w.Right tun ↔ w.Fits := by
  obtain ⟨positive, le, bound, _⟩ := consistent
  cases w with
  | latency v =>
    have value := intVal_eq v
    simp only [Right, Fits, handler, error]
    by_cases rejected : intVal v < tun.schedMinGranularity
    · refine iff_of_true ⟨tun, by simp [sysctlSchedLatency, rejected], ?_, fun _ => rfl⟩ ?_
      · simp [rejected, einval]
      · by_contra negative
        rw [if_neg negative] at value
        omega
    · rw [sysctlSchedLatency_accepts rejected positive, if_neg rejected]
      constructor
      · rintro ⟨tun', same, right, _⟩
        cases same
        have bound' := (right rfl).bound
        by_contra negative
        rw [if_neg negative] at value
        simp only at bound'
        omega
      · intro low
        rw [if_pos low] at value
        have bound' : intVal v < 2 ^ 31 := by omega
        exact ⟨_, rfl, fun _ => ⟨positive, not_lt.mp rejected, bound', nrLatency_eq positive (not_lt.mp rejected) bound'⟩,
          fun refused => absurd rfl refused⟩
  | minGranularity v =>
    have value := intVal_eq v
    simp only [Right, Fits, handler, error]
    by_cases rejected : tun.schedLatency < intVal v
    · refine iff_of_true ⟨tun, by simp [sysctlSchedMinGranularity, rejected], ?_, fun _ => rfl⟩ ?_
      · simp [rejected, einval]
      · intro zero_low
        rw [zero_low] at value
        simp at value
        omega
    · by_cases zero_low : v.toNat % 2 ^ 32 = 0
      · rw [zero_low] at value
        have none : sysctlSchedMinGranularity tun v = none := by
          unfold sysctlSchedMinGranularity
          simp only [if_neg rejected]
          rw [if_pos (by simpa using value)]
        refine iff_of_false ?_ (fun fits => fits zero_low)
        rintro ⟨tun', same, _⟩
        rw [none] at same
        cases same
      · have some_low : intVal v ≠ 0 := by omega
        rw [sysctlSchedMinGranularity_accepts rejected some_low, if_neg rejected]
        refine iff_of_true ⟨_, rfl, fun _ => ?_, fun refused => absurd rfl refused⟩ zero_low
        have positive' := Nat.pos_of_ne_zero some_low
        exact ⟨positive', not_lt.mp rejected, bound, nrLatency_eq positive' (not_lt.mp rejected) bound⟩

/-- A write handled right leaves a consistent state, accepted or not. -/
theorem LatencyWrite.Right.consistent (right : w.Right tun) (consistent : tun.Consistent) :
    ∃ tun', w.handler tun = some tun' ∧ tun'.Consistent := by
  obtain ⟨tun', handled, accepted, rejected⟩ := right
  refine ⟨tun', handled, ?_⟩
  by_cases refused : w.error tun = 0
  · exact accepted refused
  · rw [rejected refused]
    exact consistent

theorem latencyRun_snoc (tun : Tunables) (writes : List LatencyWrite) (w : LatencyWrite) :
    latencyRun tun (writes ++ [w]) = (latencyRun tun writes).bind w.handler := by
  simp [latencyRun]

theorem latencyRun_consistent (writes : List LatencyWrite) (consistent : tun.Consistent)
    (fits : ∀ w ∈ writes, w.Fits) : ∃ tun', latencyRun tun writes = some tun' ∧ tun'.Consistent := by
  induction writes using List.reverseRecOn with
  | nil => exact ⟨tun, rfl, consistent⟩
  | append_singleton before w ih =>
    obtain ⟨tun', run, still⟩ := ih fun earlier member => fits earlier (List.mem_append_left _ member)
    obtain ⟨tun'', handled, done⟩ :=
      ((LatencyWrite.right_iff still).mpr (fits w (List.mem_append_right _ (List.mem_singleton.mpr rfl)))).consistent still
    exact ⟨tun'', by rw [latencyRun_snoc, run, Option.bind_some, handled], done⟩

end writes

section init
variable {schedScaling : Int} {mpNcpus : Nat}

/-- The boot values multiplied by one factor keep their quotient. -/
theorem pssSchedInit_consistent (some_cpu : 0 < mpNcpus) (fits : 6000000 * schedFactor schedScaling mpNcpus < 2 ^ 31) :
    (pssSchedInit {} schedScaling mpNcpus).Consistent := by
  have positive : 0 < schedFactor schedScaling mpNcpus := by
    unfold schedFactor
    split_ifs <;> omega
  unfold pssSchedInit
  generalize schedFactor schedScaling mpNcpus = factor at *
  have latency : 6000000 * factor % 2 ^ 64 = 6000000 * factor := Nat.mod_eq_of_lt (by omega)
  have granularity : 750000 * factor % 2 ^ 64 = 750000 * factor := Nat.mod_eq_of_lt (by omega)
  simp only [latency, granularity]
  refine ⟨by simp only; omega, by simp only; omega, fits, ?_⟩
  simp only [Nat.ceilDiv_eq_add_pred_div]
  have eight : 6000000 * factor + 750000 * factor - 1 = 750000 * factor - 1 + 8 * (750000 * factor) := by omega
  rw [eight, Nat.add_mul_div_right _ _ (by omega), Nat.div_eq_of_lt (by omega)]

end init

/-- From the scaled boot values on, all writes are handled right exactly if they all fit. -/
theorem latency_tunables (schedScaling : Int) (mpNcpus : Nat) (some_cpu : 0 < mpNcpus)
    (fits : 6000000 * schedFactor schedScaling mpNcpus < 2 ^ 31) (writes : List LatencyWrite) :
    (∀ before w, before ++ [w] <+: writes → ∃ tun, latencyRun (pssSchedInit {} schedScaling mpNcpus) before = some tun ∧
      w.Right tun) ↔ ∀ w ∈ writes, w.Fits := by
  have start := pssSchedInit_consistent some_cpu fits
  constructor
  · intro right
    induction writes using List.reverseRecOn with
    | nil => exact fun w member => absurd member (List.not_mem_nil)
    | append_singleton before last ih =>
      have early := ih fun before' w starts => right before' w (starts.trans (List.prefix_append before [last]))
      obtain ⟨tun, run, consistent⟩ := latencyRun_consistent before start early
      obtain ⟨tun', run', handled⟩ := right before last List.prefix_rfl
      obtain rfl : tun = tun' := Option.some.inj (run.symm.trans run')
      intro w member
      rcases List.mem_append.mp member with earlier | here
      · exact early w earlier
      · rw [List.mem_singleton.mp here]
        exact (LatencyWrite.right_iff consistent).mp handled
  · intro all before w starts
    have inside := starts.subset
    obtain ⟨tun, run, consistent⟩ := latencyRun_consistent before start
      fun earlier member => all earlier (inside (List.mem_append_left _ member))
    exact ⟨tun, run, (LatencyWrite.right_iff consistent).mpr (all w (inside (by simp)))⟩

/-- On one CPU, a latency of 10 ms and then a granularity of 1 ms. -/
theorem latency_tunables_ten_ms :
    ∃ tun, latencyRun (pssSchedInit {} 2 1) [.latency 10000000] = some tun ∧
      (LatencyWrite.minGranularity 1000000).Right tun := by
  have right := (latency_tunables 2 1 (by decide) (by decide) [.latency 10000000, .minGranularity 1000000]).mpr
    (by simp [LatencyWrite.Fits])
  exact right [.latency 10000000] (.minGranularity 1000000) List.prefix_rfl

/-- A granularity of `0` divides by zero, and a latency of `2^31` is stored as a huge one. -/
theorem latency_tunables_fail :
    (¬∃ tun, latencyRun (pssSchedInit {} 2 1) [] = some tun ∧ (LatencyWrite.minGranularity 0).Right tun) ∧
      ¬∃ tun, latencyRun (pssSchedInit {} 2 1) [] = some tun ∧ (LatencyWrite.latency 2147483648).Right tun := by
  have consistent : (pssSchedInit {} 2 1).Consistent := pssSchedInit_consistent (by decide) (by decide)
  constructor
  · rintro ⟨tun, run, right⟩
    cases run
    exact (LatencyWrite.right_iff consistent).mp right rfl
  · rintro ⟨tun, run, right⟩
    cases run
    exact absurd ((LatencyWrite.right_iff consistent).mp right) (by simp [LatencyWrite.Fits])

end SfqSched
