import SfqSched.Cpupri
import Mathlib.Data.Finset.Lattice.Basic

namespace SfqSched

/-- The loop of `cpupri_find` over the levels still to come; `none` is an index outside the array. -/
def cpupriFindLoop (cp : Cpupri) (mask result : Finset Nat) : List Nat → Option (Int × Finset Nat)
  | [] => some (0, result)
  | i :: rest =>
    (Cpupri.index i).bind fun i =>
      let vec := cp.priToCpu i
      if vec.count = 0 then cpupriFindLoop cp mask result rest
      else if mask ∩ vec.mask = ∅ then cpupriFindLoop cp mask result rest
      else
        let result := vec.mask ∩ mask
        if result = ∅ then cpupriFindLoop cp mask result rest else some (1, result)

/-- `cpupri_find` for a thread's priority and affinity mask, with the set to fill in. -/
def cpupriFind (cp : Cpupri) (tdPriority : Int) (mask result : Finset Nat) : Option (Int × Finset Nat) :=
  let pri := convertPri tdPriority
  if pri < cpupriNr then cpupriFindLoop cp mask result (List.range pri.toNat) else none

namespace Cpupri

/-- Counts and masks are those of the CPUs' priorities. -/
structure Describes (cpus : Finset Nat) (cp : Cpupri) (cur : Nat → Int) : Prop where
  mask : ∀ p, (cp.priToCpu p).mask = cpus.filter fun cpu => convertPri (cur cpu) = p.val
  count : ∀ p, (cp.priToCpu p).count = (cp.priToCpu p).mask.card

/-- The allowed CPUs that are less urgent than the thread, and of these the least urgent ones. -/
def lessUrgent (cur : Nat → Int) (pri : Int) (allowed : Finset Nat) : Set Nat :=
  { cpu | cpu ∈ allowed ∧ moreUrgent pri (cur cpu) }

def leastUrgent (cur : Nat → Int) (pri : Int) (allowed : Finset Nat) : Set Nat :=
  { cpu | cpu ∈ lessUrgent cur pri allowed ∧ ∀ other ∈ lessUrgent cur pri allowed, ¬moreUrgent (cur cpu) (cur other) }

/-- What a search should return. -/
def Found (cur : Nat → Int) (pri : Int) (allowed : Finset Nat) (ret : Int) (result : Finset Nat) : Prop :=
  (ret = 1 ↔ (lessUrgent cur pri allowed).Nonempty) ∧ (ret = 1 → (result : Set Nat) = leastUrgent cur pri allowed)

/-- When `cpupri_find` returns that. A thread more urgent than `MAX_RT_PRI - 1` finds nothing. For
all others a CPU at `MAX_RT_PRI - 2` is on the idle level and one at `MAX_RT_PRI - 1` on the
timeshare level, and a thread at `MAX_RT_PRI - 1` looks for idle CPUs only. -/
def Finds (cur : Nat → Int) (pri : Int) (allowed : Finset Nat) : Prop :=
  if pri = invalidPri ∨ pri = idlePri then True
  else if pri < maxRtPri - 1 then ∀ cpu ∈ allowed, cur cpu ≤ pri
  else (∀ cpu ∈ allowed, cur cpu ≠ maxRtPri - 2) ∧
    ((∃ cpu ∈ allowed, cur cpu = idlePri) ∨
      (pri = maxRtPri - 1 → ∀ cpu ∈ allowed, cur cpu ≤ pri) ∧
        (pri = maxRtPri → ∀ cpu ∈ allowed, cur cpu ≠ maxRtPri - 1))

/-- The allowed CPUs of one level. -/
def atLevel (cur : Nat → Int) (allowed : Finset Nat) (level : Nat) : Finset Nat :=
  allowed.filter fun cpu => convertPri (cur cpu) = level

section find
variable {cpus mask result allowed : Finset Nat} {cp : Cpupri} {cur : Nat → Int} {pri : Int} {level : Nat}

/-- The three filters of a round agree. -/
theorem Describes.round (describes : Describes cpus cp cur) (inside : level < cpupriNr) (rest : List Nat) :
    cpupriFindLoop cp mask result (level :: rest) =
      if atLevel cur (cpus ∩ mask) level = ∅ then cpupriFindLoop cp mask result rest
      else some (1, atLevel cur (cpus ∩ mask) level) := by
  have there : (cp.priToCpu ⟨level, inside⟩).mask ∩ mask = atLevel cur (cpus ∩ mask) level := by
    rw [describes.mask, atLevel, Finset.filter_inter]
  have index : index (level : Int) = some ⟨level, inside⟩ := index_val ⟨level, inside⟩
  rw [cpupriFindLoop, index, Option.bind_some]
  simp only
  rw [Finset.inter_comm, there]
  by_cases none_there : atLevel cur (cpus ∩ mask) level = ∅
  · simp [none_there]
  · have counted : (cp.priToCpu ⟨level, inside⟩).count ≠ 0 := by
      intro zero_there
      rw [describes.count, Int.natCast_eq_zero, Finset.card_eq_zero] at zero_there
      rw [zero_there, Finset.empty_inter] at there
      exact none_there there.symm
    simp [none_there, counted]

/-- The values of the constants the comparisons are about. -/
theorem priorities : maxRtPri = 120 ∧ idlePri = 256 ∧ invalidPri = -1 ∧ priMax = 255 ∧ cpupriInvalid = -1 ∧
    (cpupriNr : Int) = 123 := by decide

/-- What is on the two lowest levels. -/
theorem convertPri_zero_iff : convertPri pri = 0 ↔ pri = idlePri ∨ pri = maxRtPri - 2 := by
  unfold convertPri
  have constants := priorities
  split_ifs <;> omega

theorem convertPri_one_iff (known : cpuPriority pri) :
    convertPri pri = 1 ↔ maxRtPri < pri ∧ pri ≤ priMax ∨ pri = maxRtPri - 1 := by
  unfold convertPri cpuPriority at *
  have constants := priorities
  split_ifs <;> omega

/-- The levels `cpupri_find` goes through. -/
theorem convertPri_range (rt : maxRtPri - 1 ≤ pri) (busy : pri ≠ idlePri) :
    List.range (convertPri pri).toNat = if pri = maxRtPri then [0, 1] else [0] := by
  have level : convertPri pri = if pri = maxRtPri then 2 else 1 := by
    unfold convertPri
    have constants := priorities
    split_ifs <;> omega
  rw [level]
  split <;> rfl

theorem convertPri_below : convertPri pri < cpupriNr := by
  unfold convertPri
  have constants := priorities
  split_ifs <;> omega

theorem found_zero : Found cur pri allowed 0 result ↔ ¬(lessUrgent cur pri allowed).Nonempty := by
  simp [Found]

theorem found_one (some_there : result.Nonempty) :
    Found cur pri allowed 1 result ↔ (result : Set Nat) = leastUrgent cur pri allowed := by
  refine ⟨fun found => found.2 rfl, fun same => ⟨⟨fun _ => ?_, fun _ => rfl⟩, fun _ => same⟩⟩
  obtain ⟨cpu, member⟩ := some_there
  have least : cpu ∈ leastUrgent cur pri allowed := same ▸ Finset.mem_coe.mpr member
  exact ⟨cpu, least.1⟩

/-- A CPU that is found although it is not less urgent. -/
theorem not_found {cpu : Nat} (member : cpu ∈ result) (urgent : ¬moreUrgent pri (cur cpu)) :
    ¬Found cur pri allowed 1 result := by
  rw [found_one ⟨cpu, member⟩]
  intro same
  have least : cpu ∈ leastUrgent cur pri allowed := same ▸ Finset.mem_coe.mpr member
  exact urgent least.1.2

/-- Threads that are more urgent than `MAX_RT_PRI - 1`, and those without a priority of their own. -/
theorem finds_nothing (known : ∀ cpu ∈ allowed, cpuPriority (cur cpu)) (knownPri : cpuPriority pri)
    (none : pri = invalidPri ∨ pri = idlePri ∨ pri < maxRtPri - 1) :
    Found cur pri allowed 0 result ↔ Finds cur pri allowed := by
  have constants := priorities
  rw [found_zero]
  unfold Finds
  by_cases special : pri = invalidPri ∨ pri = idlePri
  · rw [if_pos special]
    refine iff_true_intro fun ⟨cpu, _, urgent⟩ => ?_
    unfold moreUrgent at urgent
    omega
  · have low : pri < maxRtPri - 1 := by tauto
    rw [if_neg special, if_pos low]
    constructor
    · intro empty cpu member
      by_contra above
      refine empty ⟨cpu, member, ?_⟩
      have priority := known cpu member
      unfold cpuPriority moreUrgent at *
      omega
    · rintro below ⟨cpu, member, urgent⟩
      have le := below cpu member
      unfold cpuPriority moreUrgent at *
      omega

/-- The thread is at `MAX_RT_PRI - 1` or less urgent, and an idle CPU is allowed. -/
theorem finds_idle {idler : Nat} (knownPri : cpuPriority pri) (rt : maxRtPri - 1 ≤ pri) (busy : pri ≠ idlePri)
    (member : idler ∈ allowed) (idles : cur idler = idlePri)
    (level : ∀ cpu, cpu ∈ result ↔ cpu ∈ allowed ∧ cur cpu = idlePri) : Found cur pri allowed 1 result := by
  have constants := priorities
  rw [found_one ⟨idler, (level idler).mpr ⟨member, idles⟩⟩]
  unfold cpuPriority at knownPri
  have below_idle : 0 ≤ pri ∧ pri ≤ priMax := by omega
  ext cpu
  rw [Finset.mem_coe, level]
  constructor
  · rintro ⟨there, same⟩
    refine ⟨⟨there, .inr ⟨below_idle.1, below_idle.2, same⟩⟩, fun other _ urgent => ?_⟩
    unfold moreUrgent at urgent
    omega
  · rintro ⟨⟨there, urgent⟩, least⟩
    have not_above := least idler ⟨member, .inr ⟨below_idle.1, below_idle.2, idles⟩⟩
    refine ⟨there, ?_⟩
    unfold moreUrgent at urgent not_above
    omega

/-- Without idle CPUs the timeshare level is searched, for `MAX_RT_PRI` alone. -/
theorem finds_timeshare (known : ∀ cpu ∈ allowed, cpuPriority (cur cpu)) (none_idle : ∀ cpu ∈ allowed, cur cpu ≠ idlePri)
    (run : result = atLevel cur allowed 1) (some_there : result.Nonempty) :
    Found cur maxRtPri allowed 1 result ↔ ∀ cpu ∈ allowed, cur cpu ≠ maxRtPri - 1 := by
  have constants := priorities
  have level (cpu : Nat) : cpu ∈ result ↔
      cpu ∈ allowed ∧ (maxRtPri < cur cpu ∧ cur cpu ≤ priMax ∨ cur cpu = maxRtPri - 1) := by
    rw [run, atLevel, Finset.mem_filter]
    exact and_congr_right fun member => convertPri_one_iff (known cpu member)
  constructor
  · intro found cpu member misplaced
    refine not_found ((level cpu).mpr ⟨member, .inr misplaced⟩) ?_ found
    unfold moreUrgent
    omega
  · intro placed
    rw [found_one some_there]
    ext cpu
    rw [Finset.mem_coe, level]
    constructor
    · rintro ⟨member, values⟩
      have other_value := placed cpu member
      refine ⟨⟨member, ?_⟩, fun other ⟨there, _⟩ urgent => ?_⟩
      · unfold moreUrgent
        omega
      · have none := none_idle other there
        unfold moreUrgent at urgent
        omega
    · rintro ⟨⟨member, urgent⟩, _⟩
      have none := none_idle cpu member
      unfold moreUrgent at urgent
      exact ⟨member, .inl (by omega)⟩

/-- The search of a thread at `MAX_RT_PRI` goes on to the timeshare level. -/
theorem Describes.timeshare (describes : Describes cpus cp cur) (known : ∀ cpu ∈ cpus ∩ mask, cpuPriority (cur cpu))
    (none_idle : ∀ cpu ∈ cpus ∩ mask, cur cpu ≠ idlePri) :
    ∃ ret found, cpupriFindLoop cp mask result [1] = some (ret, found) ∧
      (Found cur maxRtPri (cpus ∩ mask) ret found ↔ ∀ cpu ∈ cpus ∩ mask, cur cpu ≠ maxRtPri - 1) := by
  rw [describes.round (by decide)]
  by_cases nobody : atLevel cur (cpus ∩ mask) 1 = ∅
  · rw [if_pos nobody]
    have above (cpu : Nat) (member : cpu ∈ cpus ∩ mask) :
        ¬(maxRtPri < cur cpu ∧ cur cpu ≤ priMax ∨ cur cpu = maxRtPri - 1) := by
      intro value
      have there : cpu ∈ atLevel cur (cpus ∩ mask) 1 :=
        Finset.mem_filter.mpr ⟨member, (convertPri_one_iff (known cpu member)).mpr value⟩
      rw [nobody] at there
      exact Finset.notMem_empty cpu there
    refine ⟨0, result, rfl, ?_⟩
    rw [found_zero]
    refine iff_of_true ?_ fun cpu member value => above cpu member (.inr value)
    rintro ⟨cpu, member, urgent⟩
    have not_above := above cpu member
    have not_idle := none_idle cpu member
    have constants := priorities
    unfold moreUrgent at urgent
    omega
  · rw [if_neg nobody]
    exact ⟨1, _, rfl, finds_timeshare known none_idle rfl (Finset.nonempty_iff_ne_empty.mpr nobody)⟩

/-- A timeshare thread finds no CPU that is not idle. -/
theorem finds_busy (known : ∀ cpu ∈ allowed, cpuPriority (cur cpu)) (none_idle : ∀ cpu ∈ allowed, cur cpu ≠ idlePri)
    (rt : maxRtPri - 1 ≤ pri) (last : pri ≠ maxRtPri) :
    Found cur pri allowed 0 result ↔ (pri = maxRtPri - 1 → ∀ cpu ∈ allowed, cur cpu ≤ pri) := by
  have constants := priorities
  rw [found_zero]
  constructor
  · intro nobody low cpu member
    by_contra above
    refine nobody ⟨cpu, member, ?_⟩
    have priority := known cpu member
    unfold cpuPriority moreUrgent at *
    omega
  · rintro fits ⟨cpu, member, urgent⟩
    have not_idle := none_idle cpu member
    unfold moreUrgent at urgent
    by_cases low : pri = maxRtPri - 1
    · have below := fits low cpu member
      omega
    · omega

end find

/-- `cpupri_find` finds the least urgent allowed CPUs exactly under `Finds`. -/
theorem cpupri_find (cpus : Finset Nat) (cp : Cpupri) (cur : Nat → Int) (describes : Describes cpus cp cur)
    (known : ∀ cpu ∈ cpus, cpuPriority (cur cpu)) (pri : Int) (knownPri : cpuPriority pri)
    (mask result : Finset Nat) :
    ∃ ret found, cpupriFind cp pri mask result = some (ret, found) ∧
      (Found cur pri (cpus ∩ mask) ret found ↔ Finds cur pri (cpus ∩ mask)) := by
  have constants := priorities
  have known' : ∀ cpu ∈ cpus ∩ mask, cpuPriority (cur cpu) :=
    fun cpu member => known cpu (Finset.mem_inter.mp member).1
  unfold cpupriFind
  simp only [if_pos convertPri_below]
  by_cases none : pri = invalidPri ∨ pri = idlePri ∨ pri < maxRtPri - 1
  · have level : (convertPri pri).toNat = 0 := by
      have constants := priorities
      unfold convertPri cpuPriority at *
      split_ifs <;> omega
    rw [level]
    exact ⟨0, result, rfl, finds_nothing known' knownPri none⟩
  · simp only [not_or, not_lt] at none
    obtain ⟨valid, busy, rt⟩ := none
    rw [convertPri_range rt busy]
    have start : cpupriFindLoop cp mask result (if pri = maxRtPri then [0, 1] else [0]) =
        if atLevel cur (cpus ∩ mask) 0 = ∅ then cpupriFindLoop cp mask result (if pri = maxRtPri then [1] else [])
        else some (1, atLevel cur (cpus ∩ mask) 0) := by
      split <;> exact describes.round (by decide) _
    have lowest (cpu : Nat) : cpu ∈ atLevel cur (cpus ∩ mask) 0 ↔
        cpu ∈ cpus ∩ mask ∧ (cur cpu = idlePri ∨ cur cpu = maxRtPri - 2) := by
      rw [atLevel, Finset.mem_filter]
      exact and_congr_right fun _ => convertPri_zero_iff
    have finds : Finds cur pri (cpus ∩ mask) ↔ (∀ cpu ∈ cpus ∩ mask, cur cpu ≠ maxRtPri - 2) ∧
        ((∃ cpu ∈ cpus ∩ mask, cur cpu = idlePri) ∨
          (pri = maxRtPri - 1 → ∀ cpu ∈ cpus ∩ mask, cur cpu ≤ pri) ∧
            (pri = maxRtPri → ∀ cpu ∈ cpus ∩ mask, cur cpu ≠ maxRtPri - 1)) := by
      unfold Finds
      rw [if_neg (not_or.mpr ⟨valid, busy⟩), if_neg (not_lt.mpr rt)]
    rw [start, finds]
    by_cases misplaced : ∃ cpu ∈ cpus ∩ mask, cur cpu = maxRtPri - 2
    · obtain ⟨cpu, member, value⟩ := misplaced
      have there := (lowest cpu).mpr ⟨member, .inr value⟩
      rw [if_neg (Finset.ne_empty_of_mem there)]
      refine ⟨1, _, rfl, iff_of_false (not_found there ?_) fun fits => fits.1 cpu member value⟩
      unfold moreUrgent
      omega
    have placed : ∀ cpu ∈ cpus ∩ mask, cur cpu ≠ maxRtPri - 2 :=
      fun cpu member value => misplaced ⟨cpu, member, value⟩
    by_cases idles : ∃ cpu ∈ cpus ∩ mask, cur cpu = idlePri
    · obtain ⟨idler, member, value⟩ := idles
      rw [if_neg (Finset.ne_empty_of_mem ((lowest idler).mpr ⟨member, .inl value⟩))]
      refine ⟨1, _, rfl, iff_of_true (finds_idle knownPri rt busy member value fun cpu => ?_)
        ⟨placed, .inl ⟨idler, member, value⟩⟩⟩
      rw [lowest]
      exact and_congr_right fun there => or_iff_left (placed cpu there)
    have none_idle : ∀ cpu ∈ cpus ∩ mask, cur cpu ≠ idlePri := fun cpu member value => idles ⟨cpu, member, value⟩
    have empty : atLevel cur (cpus ∩ mask) 0 = ∅ := by
      refine Finset.eq_empty_of_forall_notMem fun cpu there => ?_
      obtain ⟨member, value | value⟩ := (lowest cpu).mp there
      · exact none_idle cpu member value
      · exact placed cpu member value
    rw [if_pos empty]
    have rest_iff : ((∀ cpu ∈ cpus ∩ mask, cur cpu ≠ maxRtPri - 2) ∧
        ((∃ cpu ∈ cpus ∩ mask, cur cpu = idlePri) ∨
          (pri = maxRtPri - 1 → ∀ cpu ∈ cpus ∩ mask, cur cpu ≤ pri) ∧
            (pri = maxRtPri → ∀ cpu ∈ cpus ∩ mask, cur cpu ≠ maxRtPri - 1))) ↔
        (pri = maxRtPri - 1 → ∀ cpu ∈ cpus ∩ mask, cur cpu ≤ pri) ∧
          (pri = maxRtPri → ∀ cpu ∈ cpus ∩ mask, cur cpu ≠ maxRtPri - 1) :=
      ⟨fun fits => fits.2.resolve_left idles, fun fits => ⟨placed, .inr fits⟩⟩
    rw [rest_iff]
    by_cases last : pri = maxRtPri
    · subst last
      rw [if_pos rfl]
      obtain ⟨ret, found, run, exact_when⟩ := describes.timeshare known' none_idle
      refine ⟨ret, found, run, exact_when.trans ⟨fun fits => ⟨by omega, fun _ => fits⟩, fun fits => fits.2 rfl⟩⟩
    · rw [if_neg last]
      refine ⟨0, result, rfl, (finds_busy known' none_idle rt last).trans ?_⟩
      exact ⟨fun fits => ⟨fits, fun same => absurd same last⟩, And.left⟩

/-- The record of given priorities. -/
def ofPriorities (cpus : Finset Nat) (cur : Nat → Int) : Cpupri where
  priToCpu p :=
    { mask := cpus.filter fun cpu => convertPri (cur cpu) = p.val
      count := (cpus.filter fun cpu => convertPri (cur cpu) = p.val).card }
  cpuToPri cpu := convertPri (cur cpu)

theorem ofPriorities_describes (cpus : Finset Nat) (cur : Nat → Int) : Describes cpus (ofPriorities cpus cur) cur :=
  ⟨fun _ => rfl, fun _ => rfl⟩

/-- A timeshare thread finds the idle one of two CPUs. -/
theorem cpupri_find_idle :
    ∃ ret found, cpupriFind (ofPriorities {0, 1} fun cpu => if cpu = 0 then idlePri else 130) 140 {0, 1} ∅ =
        some (ret, found) ∧
      Found (fun cpu => if cpu = 0 then idlePri else 130) 140 ({0, 1} ∩ {0, 1}) ret found := by
  obtain ⟨ret, found, run, exact_when⟩ := cpupri_find {0, 1} _ (fun cpu => if cpu = 0 then idlePri else 130)
    (ofPriorities_describes _ _) (by simp [cpuPriority, priMax]) 140 (.inl ⟨by decide, by decide⟩) {0, 1} ∅
  refine ⟨ret, found, run, exact_when.mpr ?_⟩
  unfold Finds
  rw [if_neg (by decide), if_neg (by decide)]
  exact ⟨by decide, .inl ⟨0, by decide, rfl⟩⟩

/-- A realtime thread does not find an idle CPU. -/
theorem cpupri_find_misses :
    ¬∀ (cpus : Finset Nat) (cp : Cpupri) (cur : Nat → Int), Describes cpus cp cur →
      (∀ cpu ∈ cpus, cpuPriority (cur cpu)) → ∀ pri, cpuPriority pri → ∀ mask result,
        ∃ ret found, cpupriFind cp pri mask result = some (ret, found) ∧ Found cur pri (cpus ∩ mask) ret found := by
  intro claimed
  obtain ⟨ret, found, run, right⟩ := claimed {0} _ (fun _ => idlePri) (ofPriorities_describes _ _)
    (fun _ _ => .inr (.inl rfl)) 100 (.inl ⟨by decide, by decide⟩) {0} ∅
  have nothing : cpupriFind (ofPriorities {0} fun _ => idlePri) 100 {0} ∅ = some (0, ∅) := rfl
  rw [nothing] at run
  cases run
  exact found_zero.mp right ⟨0, by decide, .inr ⟨by decide, by decide, rfl⟩⟩

end Cpupri
end SfqSched
