import SfqSched.Membership
import SfqSched.Scaling
import SfqSched.ThreadWeights
import Mathlib.Algebra.Order.AbsoluteValue.Basic
import Mathlib.Data.Rat.BigOperators

namespace SfqSched
open State

theorem LoadWeight.Kept.cached {lw : LoadWeight} (kept : lw.Kept) (low : 2 ≤ lw.weight)
    (high : lw.weight ≤ wmultConst) : lw.Cached := by
  induction kept with
  | scale lw deltaExec weight _ ih =>
    change 2 ≤ lw.cacheInv.weight at low
    change lw.cacheInv.weight ≤ wmultConst at high
    rw [cacheInv_weight] at low high
    refine .inr ?_
    change lw.cacheInv.invWeight = wmultConst / lw.cacheInv.weight
    rw [(ih low high).inv low high, cacheInv_weight]
  | _ => exact .inl rfl

section kept
variable {C : Conds} {s s' : State} {L : List EntId} {d : Option EntId}

/-- The loads of all queues are stored by the functions for loads only. -/
def State.LoadsKept (s : State) : Prop := ∀ q, (s.sfq q).load.Kept

theorem Steady.loads (same : Steady s s') (kept : s.LoadsKept) : s'.LoadsKept := fun q => same.queues q (kept q)

theorem Micro.loads (inv : Inv C s L d) (step : Micro C s s') (kept : s.LoadsKept) : s'.LoadsKept := by
  cases step with
  | flow step => exact (step.steady inv).loads kept
  | recast t priClass cls run =>
    rw [run]
    exact kept
  | switchedFrom t priClass cls run =>
    rw [run]
    exact (pssSwitchedFrom_steady ..).loads kept
  | switchedTo t priClass run =>
    rw [run]
    exact (addVtime_steady ..).loads kept
  | weigh t run =>
    rw [run]
    exact kept
  | nice p nice range run =>
    rw [run]
    exact kept
  | move t onRq run =>
    rw [run]
    exact (pssSchedGroupMove_steady ..).loads kept
  | fork parent newProc stale run =>
    rw [run]
    have made : (schedForkInit (forkAlloc s parent newProc) parent s.nthreads stale).LoadsKept := by
      cases newProc <;> exact kept
    unfold SfqSched.fork schedForkThread
    dsimp only
    split
    · exact (pssForkThread_steady ..).loads made
    · exact made
  | exit t run =>
    rw [run]
    exact kept
  | setShares g shares run =>
    rw [run]
    exact kept
  | create parent shares run =>
    rw [run]
    exact fun q => schedGroupCreate_queues parent shares q (kept q)
  | sysctl write tun new run =>
    rw [run]
    exact kept

theorem Path.loads (h : Path C s s') (kept : s.LoadsKept) : s'.LoadsKept := by
  induction h with
  | refl => exact kept
  | step inv micro _ ih => exact ih (micro.loads inv kept)

/-- In every reached state the load of a queue is one that `slices_add_up` is about. -/
theorem run_loads {k : Kernel} {tun : Tunables} {ops : List Op} (ran : run k tun ops = some s) : s.LoadsKept := by
  refine (run_free ran).path.loads fun q => ?_
  exact .empty

end kept

section slices
variable {s : State} {q : Gid} {e : EntId}

theorem walkup_top (top : (s.ent e).parent = none) : walkup s (some e) = [e] := by
  unfold walkup
  simp only [climb, top]
  cases s.ngroups <;> rfl

/-- The slice of an entity without parent, joined or not. -/
theorem schedSlice_top (top : (s.ent e).parent = none) (place : (s.ent e).sfq = q) :
    (schedSlice s q e).1 = (scaleByWeight (schedPeriod s (s.sfq q).nrRunning) (s.ent e).load.weight
      (if (s.ent e).joined then (s.sfq q).load else loadAdd (s.sfq q).load (s.ent e).load.weight)).1 := by
  unfold schedSlice
  rw [walkup_top top]
  simp only [List.foldl_cons, List.foldl_nil, schedSliceLevel, place]
  split <;> rfl

/-- The queue as it were with `e` joined: the weight of `e` is part of its load. -/
def asJoined (s : State) (q : Gid) (e : EntId) : State :=
  (s.modSfq q fun sfq => { sfq with load := loadAdd sfq.load (s.ent e).load.weight }).modEnt e fun se =>
    { se with joined := true }

theorem schedSlice_asJoined (top : (s.ent e).parent = none) (place : (s.ent e).sfq = q)
    (free : (s.ent e).joined = false) : (schedSlice s q e).1 = (schedSlice (asJoined s q e) q e).1 := by
  have ent : (asJoined s q e).ent e = { s.ent e with joined := true } := Function.update_self ..
  have sfq : (asJoined s q e).sfq q = { s.sfq q with load := loadAdd (s.sfq q).load (s.ent e).load.weight } :=
    Function.update_self ..
  rw [schedSlice_top top place, schedSlice_top (by rw [ent]; exact top) (by rw [ent]; exact place), ent, sfq, free]
  rfl

/-- Each slice is near its share of the period, so their sum is near the period. -/
theorem slices_sum {entities : List EntId} {period w : Nat} (share : EntId → Nat) (slice : EntId → Nat)
    (near : ∀ e ∈ entities,
      -(((period * share e : ℕ) : ℚ) / 2 ^ 32 + (wmultConst / w : ℕ) / 2 ^ 17 + 1 / 2) ≤
          slice e - (period * share e : ℕ) / (w : ℚ) ∧
        (slice e : ℚ) - (period * share e : ℕ) / (w : ℚ) ≤ (wmultConst / w : ℕ) / 2 ^ 17 + 1 / 2) :
    -((period * (entities.map share).sum : ℚ) / 2 ^ 32 +
          entities.length * ((wmultConst / w : ℕ) / 2 ^ 17 + 1 / 2)) ≤
        (entities.map slice).sum - period * (entities.map share).sum / (w : ℚ) ∧
      ((entities.map slice).sum : ℚ) - period * (entities.map share).sum / (w : ℚ) ≤
        entities.length * ((wmultConst / w : ℕ) / 2 ^ 17 + 1 / 2) := by
  induction entities with
  | nil => simp
  | cons e rest ih =>
    obtain ⟨low, high⟩ := near e (List.mem_cons_self ..)
    obtain ⟨restLow, restHigh⟩ := ih fun e member => near e (List.mem_cons_of_mem _ member)
    simp only [List.map_cons, List.sum_cons, List.length_cons]
    push_cast at low high restLow restHigh ⊢
    rw [mul_add, add_div, add_div]
    constructor <;> linarith

/-- The slices of all the entities of a top-level queue add up to the period, nearly, and an
entity that is not joined gets the slice it would have as a part of the load. In a run all
loads are kept, by `run_loads`. -/
theorem slices_add_up (s : State) (q : Gid) (entities : List EntId)
    (top : ∀ e ∈ entities, (s.ent e).parent = none ∧ (s.ent e).sfq = q ∧ (s.ent e).joined)
    (count : (s.sfq q).nrRunning = entities.length)
    (total : (s.sfq q).load.weight = (entities.map fun e => (s.ent e).load.weight).sum)
    (low : 2 ≤ (s.sfq q).load.weight) (high : (s.sfq q).load.weight ≤ 2 ^ 32) (kept : (s.sfq q).load.Kept)
    (fits : ∀ e ∈ entities, ∀ x ∈ scaleIntermediates (schedPeriod s entities.length) (s.ent e).load.weight
      (s.sfq q).load, x < 2 ^ 64) :
    |((entities.map fun e => (schedSlice s q e).1).sum : ℚ) - schedPeriod s entities.length| ≤
        schedPeriod s entities.length * (s.sfq q).load.weight / 2 ^ 32 +
          entities.length * (2 ^ 32 / ((s.sfq q).load.weight * 2 ^ 17) + 1 / 2) + 1 ∧
      ∀ e, (s.ent e).parent = none → (s.ent e).sfq = q → (s.ent e).joined = false →
        (schedSlice s q e).1 = (schedSlice (asJoined s q e) q e).1 := by
  refine ⟨?_, fun e parent place free => schedSlice_asJoined parent place free⟩
  set w := (s.sfq q).load.weight with w_def
  set period := schedPeriod s entities.length
  have wpos : 0 < w := by omega
  have cached := kept.cached low high
  have near (e : EntId) (member : e ∈ entities) :
      -(((period * (s.ent e).load.weight : ℕ) : ℚ) / 2 ^ 32 + (wmultConst / w : ℕ) / 2 ^ 17 + 1 / 2) ≤
          (schedSlice s q e).1 - (period * (s.ent e).load.weight : ℕ) / (w : ℚ) ∧
        ((schedSlice s q e).1 : ℚ) - (period * (s.ent e).load.weight : ℕ) / (w : ℚ) ≤
          (wmultConst / w : ℕ) / 2 ^ 17 + 1 / 2 := by
    obtain ⟨parent, place, joined⟩ := top e member
    rw [schedSlice_top parent place, if_pos joined, count, scaleByWeight_rounded low high cached (fits e member)]
    exact scaled_bounds _ wpos
  obtain ⟨below, above⟩ := slices_sum (fun e => (s.ent e).load.weight) (fun e => (schedSlice s q e).1) near
  rw [← total] at below above
  have wposQ : (0 : ℚ) < w := by exact_mod_cast wpos
  have whole : (period : ℚ) * w / w = period := by field_simp
  rw [whole] at below above
  have inverse : ((wmultConst / w : ℕ) : ℚ) / 2 ^ 17 ≤ 2 ^ 32 / (w * 2 ^ 17) := by
    have floor : ((wmultConst / w : ℕ) : ℚ) ≤ (wmultConst : ℕ) / (w : ℚ) := Nat.cast_div_le
    have const : ((wmultConst : ℕ) : ℚ) = 2 ^ 32 := by norm_num [wmultConst]
    rw [const] at floor
    calc ((wmultConst / w : ℕ) : ℚ) / 2 ^ 17 ≤ (2 : ℚ) ^ 32 / w / 2 ^ 17 := by gcongr
      _ = (2 : ℚ) ^ 32 / (w * 2 ^ 17) := by rw [div_div]
  have rounding : (entities.length : ℚ) * ((wmultConst / w : ℕ) / 2 ^ 17 + 1 / 2) ≤
      entities.length * (2 ^ 32 / (w * 2 ^ 17) + 1 / 2) := by gcongr
  have nonneg : (0 : ℚ) ≤ period * w / 2 ^ 32 := by positivity
  rw [abs_le]
  constructor <;> linarith

/-- Beside the boot thread waits one whose nice value is 19. -/
def unevenPair : List Op := [.fork 0 true {}, .add 2, .nice 2 19]

theorem slices_add_up_two :
    ∃ s, run plainKernel {} unevenPair = some s ∧
      |(([.thread 0, .thread 2].map fun e => (schedSlice s 0 e).1).sum : ℚ) - 6000000| ≤
        6000000 * 1039 / 2 ^ 32 + 2 * (2 ^ 32 / (1039 * 2 ^ 17) + 1 / 2) + 1 := by
  have result : (run plainKernel {} unevenPair).map (fun s =>
      ((s.ent (.thread 0)).parent, (s.ent (.thread 0)).sfq, (s.ent (.thread 0)).joined, (s.ent (.thread 0)).load.weight)) =
      some (none, 0, true, 1024) := by decide +kernel
  have result' : (run plainKernel {} unevenPair).map (fun s =>
      ((s.ent (.thread 2)).parent, (s.ent (.thread 2)).sfq, (s.ent (.thread 2)).joined, (s.ent (.thread 2)).load.weight)) =
      some (none, 0, true, 15) := by decide +kernel
  have totals : (run plainKernel {} unevenPair).map (fun s =>
      ((s.sfq 0).nrRunning, (s.sfq 0).load.weight, (s.sfq 0).load.invWeight, schedPeriod s 2)) =
      some (2, 1039, 0, 6000000) := by decide +kernel
  obtain ⟨s, ran, first⟩ := Option.map_eq_some_iff.mp result
  rw [ran] at result' totals
  simp only [Option.map_some, Option.some.injEq, Prod.mk.injEq] at first result' totals
  obtain ⟨parent, place, joined, weight⟩ := first
  obtain ⟨parent', place', joined', weight'⟩ := result'
  obtain ⟨count, load, inverse, period⟩ := totals
  have whole : (s.sfq 0).load = ⟨1039, 0⟩ := by
    cases eq : (s.sfq 0).load
    rw [eq] at load inverse
    exact congrArg₂ LoadWeight.mk load inverse
  have near := (slices_add_up s 0 [.thread 0, .thread 2]
    (List.forall_mem_cons.mpr ⟨⟨parent, place, joined⟩, List.forall_mem_cons.mpr ⟨⟨parent', place', joined'⟩, by simp⟩⟩)
    count (by rw [load, List.map_cons, List.map_cons, List.map_nil, weight, weight']; rfl)
    (by rw [load]; decide) (by rw [load]; decide) (run_loads ran 0)
    (List.forall_mem_cons.mpr ⟨?_, List.forall_mem_cons.mpr ⟨?_, by simp⟩⟩)).1
  · refine ⟨s, ran, ?_⟩
    rw [load, show ([.thread 0, .thread 2] : List EntId).length = 2 from rfl, period] at near
    exact_mod_cast near
  · rw [whole, weight, show ([.thread 0, .thread 2] : List EntId).length = 2 from rfl, period]
    decide +kernel
  · rw [whole, weight', show ([.thread 0, .thread 2] : List EntId).length = 2 from rfl, period]
    decide +kernel

end slices
end SfqSched
