import SfqSched.Load
import Mathlib.Data.Finset.Card
import Mathlib.Data.List.Induction
import Mathlib.Data.Nat.Cast.Order.Ring

namespace SfqSched
open Function

/-- Constants of `sched.h` and `cpupri.c`. -/
def maxRtPri : Int := puser
def priMax : Int := 255
def invalidPri : Int := -1
def idlePri : Int := priMax + 1
def cpupriNr : Nat := puser + 1 + 1 + 1
def cpupriInvalid : Int := -1

/-- `convert_pri`. -/
def convertPri (pri : Int) : Int :=
  if pri = idlePri then 0
  else if pri = invalidPri then cpupriInvalid
  else if pri > maxRtPri then 1
  else (pri - maxRtPri) + 2

/-- `struct cpupri_vec`. -/
structure CpupriVec where
  count : Int := 0
  mask : Finset Nat := ∅

/-- `struct cpupri`. -/
structure Cpupri where
  priToCpu : Fin cpupriNr → CpupriVec
  cpuToPri : Nat → Int

namespace Cpupri

/-- The element `pri_to_cpu[i]`, if there is one. -/
def index (i : Int) : Option (Fin cpupriNr) :=
  if h : 0 ≤ i ∧ i.toNat < cpupriNr then some ⟨i.toNat, h.2⟩ else none

def modVec (cp : Cpupri) (i : Fin cpupriNr) (f : CpupriVec → CpupriVec) : Cpupri :=
  { cp with priToCpu := update cp.priToCpu i (f (cp.priToCpu i)) }

end Cpupri

/-- The first half of `cpupri_set`: the CPU enters its new level. -/
def cpupriEnter (cp : Cpupri) (cpu : Nat) (newpri : Int) : Option Cpupri :=
  if newpri ≠ cpupriInvalid then
    (Cpupri.index newpri).map fun i =>
      cp.modVec i fun vec => { mask := insert cpu vec.mask, count := vec.count + 1 }
  else some cp

/-- The second half: the CPU leaves its old level. -/
def cpupriLeave (cp : Cpupri) (cpu : Nat) (oldpri : Int) : Option Cpupri :=
  if oldpri ≠ cpupriInvalid then
    (Cpupri.index oldpri).map fun i =>
      cp.modVec i fun vec => { mask := vec.mask.erase cpu, count := vec.count - 1 }
  else some cp

/-- `cpupri_set`; `none` is a failed assertion or an index outside the array. -/
def cpupriSet (cp : Cpupri) (cpu : Nat) (newpri : Int) : Option Cpupri :=
  let oldpri := cp.cpuToPri cpu
  let newpri := convertPri newpri
  if newpri < cpupriNr then
    (cpupriEnter cp cpu newpri).bind fun cp =>
      (cpupriLeave cp cpu oldpri).map fun cp => { cp with cpuToPri := update cp.cpuToPri cpu newpri }
  else none

/-- `cpupri_init`, for the CPUs there are. -/
def cpupriInit (cpus : Finset Nat) : Cpupri where
  priToCpu := fun _ => {}
  cpuToPri := fun cpu => if cpu ∈ cpus then cpupriInvalid else 0

/-- Calls of `cpupri_set` one after the other. -/
def cpupriRun (cpus : Finset Nat) (calls : List (Nat × Int)) : Option Cpupri :=
  calls.foldlM (fun cp call => cpupriSet cp call.1 call.2) (cpupriInit cpus)

/-- A thread's priority, `IDLE_PRI` or `INVALID_PRI`. -/
def cpuPriority (pri : Int) : Prop := 0 ≤ pri ∧ pri ≤ priMax ∨ pri = idlePri ∨ pri = invalidPri

/-- The first of two priorities is the more urgent one: a realtime priority
that is smaller or against a timeshare one, or anything against `IDLE_PRI`. -/
def moreUrgent (pri other : Int) : Prop :=
  (0 ≤ pri ∧ pri ≤ maxRtPri ∧ pri < other ∧ other ≤ priMax) ∨ (0 ≤ pri ∧ pri ≤ priMax ∧ other = idlePri)

/-- The priority every CPU was last given. -/
def lastPriority (calls : List (Nat × Int)) : Nat → Int :=
  calls.foldl (fun last call => update last call.1 call.2) fun _ => invalidPri

namespace Cpupri

/-- What the three structures say about the CPUs. -/
structure Good (cpus : Finset Nat) (cp : Cpupri) (calls : List (Nat × Int)) : Prop where
  level : ∀ cpu ∈ cpus, cp.cpuToPri cpu = convertPri (lastPriority calls cpu)
  mask : ∀ p, (cp.priToCpu p).mask = cpus.filter fun cpu => cp.cpuToPri cpu = p.val
  count : ∀ p, (cp.priToCpu p).count = (cp.priToCpu p).mask.card
  order : ∀ cpu ∈ cpus, ∀ other, moreUrgent (lastPriority calls cpu) other →
    convertPri other < convertPri (lastPriority calls cpu)

/-- When `cpupri_set` keeps them right. -/
def Fits (cp : Cpupri) (call : Nat × Int) : Prop :=
  (call.2 = invalidPri ∨ maxRtPri ≤ call.2) ∧
    (convertPri call.2 ≠ cpupriInvalid → cp.cpuToPri call.1 ≠ convertPri call.2)

section set
variable {cpus : Finset Nat} {cp cp' : Cpupri} {calls : List (Nat × Int)} {cpu : Nat} {pri : Int}

theorem lastPriority_snoc (calls : List (Nat × Int)) (cpu : Nat) (pri : Int) :
    lastPriority (calls ++ [(cpu, pri)]) = update (lastPriority calls) cpu pri := by
  simp [lastPriority]

theorem cpupriRun_snoc (cpus : Finset Nat) (calls : List (Nat × Int)) (call : Nat × Int) :
    cpupriRun cpus (calls ++ [call]) = (cpupriRun cpus calls).bind fun cp => cpupriSet cp call.1 call.2 := by
  simp [cpupriRun]

theorem index_some {i : Int} {k : Fin cpupriNr} (h : index i = some k) : i = k.val := by
  unfold index at h
  split at h
  · rename_i inside
    cases h
    exact (Int.toNat_of_nonneg inside.1).symm
  · cases h

theorem index_val (k : Fin cpupriNr) : index k.val = some k := by
  simp [index]

/-- The levels of the priorities that are not realtime, and of the last that is. -/
theorem convertPri_high (h : maxRtPri ≤ pri) :
    convertPri pri = if pri = idlePri then 0 else if pri = maxRtPri then 2 else 1 := by
  unfold convertPri maxRtPri invalidPri at *
  have rt : (puser : Int) = 120 := rfl
  split_ifs <;> omega

theorem not_invalid {level : Int} {p : Fin cpupriNr} (h : level = cpupriInvalid) : level ≠ p.val := by
  have := Int.natCast_nonneg p.val
  unfold cpupriInvalid at h
  omega

theorem index_apart {level : Int} {i p : Fin cpupriNr} (h : level = i.val) (other : p ≠ i) : level ≠ p.val := by
  rw [h]
  exact fun eq => other (Fin.ext (by exact_mod_cast eq.symm))

theorem cpupriEnter_some {level : Int} (run : cpupriEnter cp cpu level = some cp') :
    cp'.cpuToPri = cp.cpuToPri ∧ ∀ p : Fin cpupriNr, cp'.priToCpu p =
      if level = p.val then { mask := insert cpu (cp.priToCpu p).mask, count := (cp.priToCpu p).count + 1 }
      else cp.priToCpu p := by
  unfold cpupriEnter at run
  split at run
  · obtain ⟨i, found, rfl⟩ := Option.map_eq_some_iff.mp run
    refine ⟨rfl, fun p => ?_⟩
    by_cases same : p = i
    · subst same
      simp [modVec, index_some found]
    · simp [modVec, index_apart (index_some found) same, same]
  · rename_i invalid
    cases run
    exact ⟨rfl, fun p => (if_neg (not_invalid (not_not.mp invalid))).symm⟩

theorem cpupriLeave_some {level : Int} (run : cpupriLeave cp cpu level = some cp') :
    cp'.cpuToPri = cp.cpuToPri ∧ ∀ p : Fin cpupriNr, cp'.priToCpu p =
      if level = p.val then { mask := (cp.priToCpu p).mask.erase cpu, count := (cp.priToCpu p).count - 1 }
      else cp.priToCpu p := by
  unfold cpupriLeave at run
  split at run
  · obtain ⟨i, found, rfl⟩ := Option.map_eq_some_iff.mp run
    refine ⟨rfl, fun p => ?_⟩
    by_cases same : p = i
    · subst same
      simp [modVec, index_some found]
    · simp [modVec, index_apart (index_some found) same, same]
  · rename_i invalid
    cases run
    exact ⟨rfl, fun p => (if_neg (not_invalid (not_not.mp invalid))).symm⟩

/-- Both halves touch the same vector where old and new level are the same. -/
theorem cpupriSet_some (run : cpupriSet cp cpu pri = some cp') :
    cp'.cpuToPri = update cp.cpuToPri cpu (convertPri pri) ∧ ∀ p : Fin cpupriNr,
      (cp'.priToCpu p).mask =
        (if cp.cpuToPri cpu = p.val then (cp.priToCpu p).mask.erase cpu
        else if convertPri pri = p.val then insert cpu (cp.priToCpu p).mask
        else (cp.priToCpu p).mask) ∧
      (cp'.priToCpu p).count =
        (cp.priToCpu p).count + (if convertPri pri = p.val then 1 else 0) -
          (if cp.cpuToPri cpu = p.val then 1 else 0) := by
  unfold cpupriSet at run
  dsimp only at run
  split at run
  · obtain ⟨a, first, run⟩ := Option.bind_eq_some_iff.mp run
    obtain ⟨b, second, rfl⟩ := Option.map_eq_some_iff.mp run
    obtain ⟨same, entered⟩ := cpupriEnter_some first
    obtain ⟨same', left⟩ := cpupriLeave_some second
    refine ⟨by rw [← same, ← same'], fun p => ?_⟩
    simp only [left p, entered p]
    split_ifs <;> simp
  · cases run

/-- A level in the array, or none, is all that `cpupri_set` needs. -/
theorem cpupriSet_exists (new : convertPri pri = cpupriInvalid ∨ ∃ p : Fin cpupriNr, convertPri pri = p.val)
    (old : cp.cpuToPri cpu = cpupriInvalid ∨ ∃ p : Fin cpupriNr, cp.cpuToPri cpu = p.val) :
    ∃ cp', cpupriSet cp cpu pri = some cp' := by
  have enters : ∃ a, cpupriEnter cp cpu (convertPri pri) = some a := by
    unfold cpupriEnter
    rcases new with invalid | ⟨p, level⟩
    · simp [invalid]
    · rw [level, index_val]
      split <;> simp
  have leaves (a : Cpupri) : ∃ b, cpupriLeave a cpu (cp.cpuToPri cpu) = some b := by
    unfold cpupriLeave
    rcases old with invalid | ⟨p, level⟩
    · simp [invalid]
    · rw [level, index_val]
      split <;> simp
  have below : convertPri pri < cpupriNr := by
    rcases new with invalid | ⟨p, level⟩
    · rw [invalid]
      decide
    · rw [level]
      exact_mod_cast p.isLt
  obtain ⟨a, first⟩ := enters
  obtain ⟨b, second⟩ := leaves a
  exact ⟨_, by simp [cpupriSet, below, first, second]; rfl⟩

end set

section runs
variable {cpus : Finset Nat} {cp cp' : Cpupri} {calls : List (Nat × Int)} {call : Nat × Int}

theorem convertPri_invalid : convertPri invalidPri = cpupriInvalid := by decide

/-- The levels a fitting call can set. -/
theorem convertPri_fits {pri : Int} (h : pri = invalidPri ∨ maxRtPri ≤ pri) :
    convertPri pri = cpupriInvalid ∨ ∃ p : Fin cpupriNr, convertPri pri = p.val := by
  rcases h with rfl | high
  · exact .inl convertPri_invalid
  · rw [convertPri_high high]
    split_ifs
    · exact .inr ⟨⟨0, by decide⟩, rfl⟩
    · exact .inr ⟨⟨2, by decide⟩, rfl⟩
    · exact .inr ⟨⟨1, by decide⟩, rfl⟩

/-- Exactly the priorities that are not realtime, and the last that is, have all less urgent ones below them. -/
theorem ordered_iff {pri : Int} (known : cpuPriority pri) :
    (∀ other, moreUrgent pri other → convertPri other < convertPri pri) ↔ pri = invalidPri ∨ maxRtPri ≤ pri := by
  have rt : maxRtPri = 120 := rfl
  constructor
  · intro ordered
    by_contra low
    simp only [not_or, not_le] at low
    have inside : 0 ≤ pri ∧ pri ≤ priMax := by
      rcases known with inside | idle | invalid
      · exact inside
      · have : idlePri = 256 := rfl
        omega
      · exact absurd invalid low.1
    have above := ordered maxRtPri (.inl ⟨inside.1, low.2.le, low.2, by decide⟩)
    rw [show convertPri maxRtPri = 2 by decide] at above
    unfold convertPri idlePri invalidPri priMax at above
    split_ifs at above <;> omega
  · rintro (rfl | high) other urgent
    · rcases urgent with ⟨pos, _⟩ | ⟨pos, _⟩ <;> exact absurd pos (by decide)
    · rw [convertPri_high high]
      have idle : idlePri = 256 := rfl
      have max : priMax = 255 := rfl
      have high' : maxRtPri ≤ other := by
        rcases urgent with ⟨_, _, below, _⟩ | ⟨_, _, same⟩ <;> omega
      rw [convertPri_high high']
      rcases urgent with ⟨_, top, below, small⟩ | ⟨_, small, same⟩ <;> split_ifs <;> omega

theorem lastPriority_known (calls : List (Nat × Int)) (known : ∀ call ∈ calls, cpuPriority call.2) (cpu : Nat) :
    cpuPriority (lastPriority calls cpu) := by
  induction calls using List.reverseRecOn with
  | nil => exact .inr (.inr rfl)
  | append_singleton first call ih =>
    rw [lastPriority_snoc, update_apply]
    split
    · exact known call (by simp)
    · exact ih fun earlier member => known earlier (by simp [member])

theorem Good.init (cpus : Finset Nat) : Good cpus (cpupriInit cpus) [] where
  level cpu inside := by
    simp only [cpupriInit, inside, if_true]
    exact convertPri_invalid.symm
  mask p := by
    refine (Finset.filter_eq_empty_iff.mpr fun cpu inside level => ?_).symm
    simp only [cpupriInit, inside, if_true] at level
    exact not_invalid rfl level
  count p := rfl
  order cpu _ := (ordered_iff (.inr (.inr rfl))).mpr (.inl rfl)

/-- A fitting call keeps everything right. -/
theorem Good.step (good : Good cpus cp calls) (inside : call.1 ∈ cpus) (known : cpuPriority call.2)
    (fits : Fits cp call) (run : cpupriSet cp call.1 call.2 = some cp') : Good cpus cp' (calls ++ [call]) := by
  obtain ⟨slot, vecs⟩ := cpupriSet_some run
  have last (cpu : Nat) : lastPriority (calls ++ [call]) cpu = if cpu = call.1 then call.2 else lastPriority calls cpu := by
    rw [lastPriority_snoc, update_apply]
  have apart (p : Fin cpupriNr) (new : convertPri call.2 = p.val) : cp.cpuToPri call.1 ≠ p.val := by
    rw [← new]
    exact fits.2 fun invalid => not_invalid invalid new
  have member (p : Fin cpupriNr) : call.1 ∈ (cp.priToCpu p).mask ↔ cp.cpuToPri call.1 = p.val := by
    rw [good.mask p]
    simp [inside]
  exact {
    level := fun cpu known => by
      rw [slot, last, update_apply]
      split
      · rfl
      · exact good.level cpu known
    mask := fun p => by
      ext cpu
      rw [(vecs p).1, slot]
      have old : cpu ∈ (cp.priToCpu p).mask ↔ cpu ∈ cpus ∧ cp.cpuToPri cpu = p.val := by
        rw [good.mask p, Finset.mem_filter]
      by_cases same : cpu = call.1
      · subst same
        split_ifs with left entered
        · have new : convertPri call.2 ≠ p.val := fun new => apart p new left
          simp [new]
        · simp [entered, inside]
        · simp [old, left, entered]
      · split_ifs <;> simp [same, old]
    count := fun p => by
      rw [(vecs p).1, (vecs p).2, good.count p]
      split_ifs with entered left left
      · exact absurd left (apart p entered)
      · have fresh : call.1 ∉ (cp.priToCpu p).mask := fun there => left ((member p).mp there)
        rw [Finset.card_insert_of_notMem fresh]
        push_cast
        omega
      · have there := (member p).mpr left
        have some_there := Finset.card_pos.mpr ⟨_, there⟩
        rw [Finset.card_erase_of_mem there]
        omega
      · omega
    order := fun cpu known' => by
      rw [last]
      split
      · exact (ordered_iff known).mpr fits.1
      · exact good.order cpu known' }

/-- A call that does not fit leaves a wrong order or a wrong mask. -/
theorem Good.fits (inside : call.1 ∈ cpus) (known : cpuPriority call.2)
    (run : cpupriSet cp call.1 call.2 = some cp') (after : Good cpus cp' (calls ++ [call])) : Fits cp call := by
  obtain ⟨slot, vecs⟩ := cpupriSet_some run
  have last : lastPriority (calls ++ [call]) call.1 = call.2 := by
    rw [lastPriority_snoc, update_self]
  have order := after.order call.1 inside
  rw [last] at order
  have high := (ordered_iff known).mp order
  refine ⟨high, fun valid same => ?_⟩
  rcases convertPri_fits high with invalid | ⟨p, level⟩
  · exact valid invalid
  · have mask := after.mask p
    have there : call.1 ∈ (cp'.priToCpu p).mask := by
      rw [mask, Finset.mem_filter, slot, update_self]
      exact ⟨inside, level⟩
    rw [(vecs p).1, if_pos (same.trans level)] at there
    simp at there

/-- The bookkeeping is right after every call exactly if every call fits: its
priority is not more urgent than `PUSER`, and it is not the level the CPU has. -/
theorem cpupri_bookkeeping (cpus : Finset Nat) (calls : List (Nat × Int))
    (known : ∀ call ∈ calls, call.1 ∈ cpus ∧ cpuPriority call.2) :
    (∀ first, first <+: calls → ∃ cp, cpupriRun cpus first = some cp ∧ Good cpus cp first) ↔
      ∀ first call, first ++ [call] <+: calls → ∀ cp, cpupriRun cpus first = some cp → Fits cp call := by
  constructor
  · intro right first call starts cp before
    have member : call ∈ calls := starts.subset (by simp)
    obtain ⟨cp', run', after⟩ := right (first ++ [call]) starts
    rw [cpupriRun_snoc, before] at run'
    exact Good.fits (known call member).1 (known call member).2 run' after
  · intro fits first
    induction first using List.reverseRecOn with
    | nil => exact fun _ => ⟨_, rfl, .init cpus⟩
    | append_singleton first call ih =>
      intro starts
      have member : call ∈ calls := starts.subset (by simp)
      obtain ⟨inside, priority⟩ := known call member
      obtain ⟨cp, run, good⟩ := ih ((List.prefix_append first [call]).trans starts)
      have fit := fits first call starts cp run
      have old : cp.cpuToPri call.1 = cpupriInvalid ∨ ∃ p : Fin cpupriNr, cp.cpuToPri call.1 = p.val := by
        have unordered := good.order call.1 inside
        rw [good.level call.1 inside]
        have last := lastPriority_known first (fun earlier there =>
          (known earlier (starts.subset (List.mem_append_left _ there))).2) call.1
        exact convertPri_fits ((ordered_iff last).mp unordered)
      obtain ⟨cp', next⟩ := cpupriSet_exists (convertPri_fits fit.1) old
      refine ⟨cp', ?_, good.step inside priority fit next⟩
      rw [cpupriRun_snoc, run]
      exact next

/-- Two CPUs, a realtime thread on one and a timeshare thread on the other. -/
theorem cpupri_bookkeeping_two_cpus :
    ∃ cp, cpupriRun {0, 1} [(0, 120), (1, 200)] = some cp ∧ Good {0, 1} cp [(0, 120), (1, 200)] := by
  refine (cpupri_bookkeeping {0, 1} [(0, 120), (1, 200)] (by simp [cpuPriority, priMax])).mpr ?_ _ List.prefix_rfl
  rintro first call starts cp run
  match first with
  | [] =>
    cases run
    obtain ⟨rfl, -⟩ := List.cons_prefix_cons.mp starts
    exact ⟨.inr (by decide), fun _ => by decide⟩
  | [a] =>
    obtain ⟨head, tail⟩ := List.cons_prefix_cons.mp starts
    obtain ⟨rfl, -⟩ := List.cons_prefix_cons.mp tail
    subst head
    have set : cpupriSet (cpupriInit {0, 1}) 0 120 = some cp := by simpa [cpupriRun] using run
    obtain ⟨slot, -⟩ := cpupriSet_some set
    refine ⟨.inr (by decide), fun _ => ?_⟩
    rw [slot]
    decide
  | a :: b :: rest =>
    have long := starts.length_le
    simp at long

/-- The realtime priority 100 has level -18, and a second timeshare priority
takes the CPU out of the mask of its level. -/
theorem cpupri_bookkeeping_fails :
    (¬∃ cp, cpupriRun {0} [(0, 100)] = some cp ∧ Good {0} cp [(0, 100)]) ∧
      ¬∃ cp, cpupriRun {0} [(0, 130), (0, 140)] = some cp ∧ Good {0} cp [(0, 130), (0, 140)] := by
  constructor
  · rintro ⟨cp, run, -⟩
    have none_there : cpupriRun {0} [(0, 100)] = none := rfl
    cases none_there.symm.trans run
  · rintro ⟨cp, run, good⟩
    obtain ⟨first, run₁, run₂⟩ := Option.bind_eq_some_iff.mp (cpupriRun_snoc {0} [(0, 130)] (0, 140) ▸ run)
    have set : cpupriSet (cpupriInit {0}) 0 130 = some first := by simpa [cpupriRun] using run₁
    have slot := (cpupriSet_some set).1
    have gone := ((cpupriSet_some run₂).2 ⟨1, by decide⟩).1
    rw [if_pos (by rw [slot]; decide)] at gone
    have there := good.mask ⟨1, by decide⟩
    have level : cp.cpuToPri 0 = 1 := by
      rw [(cpupriSet_some run₂).1]
      rfl
    rw [gone] at there
    have member : 0 ∈ ({0} : Finset Nat).filter fun cpu => cp.cpuToPri cpu = ((1 : Nat) : Int) :=
      Finset.mem_filter.mpr ⟨by simp, level⟩
    rw [← there] at member
    simp at member

end runs
end Cpupri
end SfqSched
