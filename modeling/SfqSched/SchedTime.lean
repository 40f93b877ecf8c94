import Mathlib.Algebra.Group.Nat.Defs
import Mathlib.Data.List.Induction
import Mathlib.Logic.Function.Basic
import Mathlib.Tactic.Common

namespace SfqSched
open Function

/-- `wrap_min_64`. -/
def wrapMin64 (x y : BitVec 64) : BitVec 64 := if (x - y).toInt < 0 then x else y

/-- `wrap_max_64`. -/
def wrapMax64 (x y : BitVec 64) : BitVec 64 := if (x - y).toInt > 0 then x else y

/-- `struct sched_time_data`. -/
structure SchedTimeData where
  tickCpuTime : BitVec 64
  tickSysTime : BitVec 64
  time : BitVec 64

/-- What `sched_time_local` computes between its reads and the compare-and-set, `now` being
what `cputime_ns` returns. -/
def schedTimeLocal (tickNs : Nat) (data : SchedTimeData) (now : BitVec 64) : BitVec 64 :=
  let delta := now - data.tickCpuTime
  let delta := if delta.toInt < 0 then 0 else delta
  let oldTime := data.time
  let time := data.tickSysTime + delta
  let minTime := wrapMax64 data.tickSysTime oldTime
  let maxTime := wrapMax64 oldTime (data.tickSysTime + BitVec.ofNat 64 tickNs)
  let time := wrapMax64 time minTime
  wrapMin64 time maxTime

inductive TimeCall
  | schedTimeLocal
  | schedTimeRemote (remote : Nat)
  | schedTimeTick
  deriving DecidableEq

/-- Where a CPU is in `sched_time.c`, with the values it has read so far. Its callers hold
a spin lock, so a CPU is in one call at a time. -/
inductive TimePc
  | out
  /-- `sched_time_tick` before `systime_ns`, `cputime_ns`, and the store of `tick_sys_time` -/
  | tick
  | sampled (sysNow : BitVec 64)
  | ticked (sysNow : BitVec 64)
  /-- `sched_time_local` at `again`, and before its compare-and-set -/
  | again (call : TimeCall)
  | computed (call : TimeCall) (oldTime time : BitVec 64)
  /-- `sched_time_remote` before its two reads and before its compare-and-set -/
  | compare (remote : Nat)
  | read (remote : Nat) (localTime : BitVec 64)
  | chosen (remote : Nat) (localTime remoteTime : BitVec 64)
  deriving DecidableEq

structure TimeState where
  data : Nat → SchedTimeData
  pc : Nat → TimePc

inductive TimeEvent
  /-- `systime_ns` -/
  | sampled (cpu : Nat) (sysNow : BitVec 64)
  /-- a compare-and-set of the CPU's `data->time` -/
  | stored (cpu : Nat) (time : BitVec 64)
  /-- `sched_time_local` -/
  | returned (cpu : Nat) (time : BitVec 64)
  /-- `sched_time_remote` -/
  | compared (cpu remote : Nat) (localTime remoteTime val : BitVec 64)
  deriving DecidableEq

/-- A CPU enters a function, or goes on by one step; `reading` is what a counter returns
if the step reads one. -/
inductive TimeAction
  | call (cpu : Nat) (call : TimeCall)
  | go (cpu : Nat) (reading : BitVec 64)
  deriving DecidableEq

namespace TimeState

def setPc (s : TimeState) (cpu : Nat) (pc : TimePc) : TimeState := { s with pc := update s.pc cpu pc }

def setTime (s : TimeState) (cpu : Nat) (time : BitVec 64) : TimeState :=
  { s with data := update s.data cpu { s.data cpu with time } }

@[simp] theorem setPc_data (s : TimeState) (cpu : Nat) (pc : TimePc) : (s.setPc cpu pc).data = s.data := rfl

@[simp] theorem setPc_pc (s : TimeState) (cpu u : Nat) (pc : TimePc) :
    (s.setPc cpu pc).pc u = if u = cpu then pc else s.pc u := by
  simp [setPc, update_apply]

@[simp] theorem setTime_pc (s : TimeState) (cpu : Nat) (time : BitVec 64) : (s.setTime cpu time).pc = s.pc := rfl

@[simp] theorem setTime_time (s : TimeState) (cpu u : Nat) (time : BitVec 64) :
    ((s.setTime cpu time).data u).time = if u = cpu then time else (s.data u).time := by
  by_cases same : u = cpu <;> simp [setTime, same]

@[simp] theorem setTime_sys (s : TimeState) (cpu u : Nat) (time : BitVec 64) :
    ((s.setTime cpu time).data u).tickSysTime = (s.data u).tickSysTime := by
  by_cases same : u = cpu <;> simp [setTime, same]

end TimeState

/-- The first step of a call. -/
def TimeCall.enter : TimeCall → TimePc
  | .schedTimeTick => .tick
  | call => .again call

/-- What follows when `sched_time_local` returns: in `sched_time_remote` the comparison. -/
def TimeCall.leave : TimeCall → TimePc
  | .schedTimeRemote remote => .compare remote
  | _ => .out

/-- `if (!atomic_cmpset_64(&data->time, old, val)) goto again`. -/
def atomicCmpset (s : TimeState) (cpu target : Nat) (old val : BitVec 64) (again done : TimePc)
    (events : List TimeEvent) : TimeState × List TimeEvent :=
  if (s.data target).time = old then ((s.setTime target val).setPc cpu done, .stored target val :: events)
  else (s.setPc cpu again, [])

def timeStep (tickNs : Nat) (s : TimeState) : TimeAction → Option (TimeState × List TimeEvent)
  | .call cpu call => if s.pc cpu = .out then some (s.setPc cpu call.enter, []) else none
  | .go cpu reading =>
    match s.pc cpu with
    | .out => none
    | .tick => some (s.setPc cpu (.sampled reading), [.sampled cpu reading])
    | .sampled sysNow =>
      let s := { s with data := update s.data cpu { s.data cpu with tickCpuTime := reading } }
      some (s.setPc cpu (.ticked sysNow), [])
    | .ticked sysNow =>
      let s := { s with data := update s.data cpu { s.data cpu with tickSysTime := sysNow } }
      some (s.setPc cpu (.again .schedTimeTick), [])
    | .again call =>
      some (s.setPc cpu (.computed call (s.data cpu).time (schedTimeLocal tickNs (s.data cpu) reading)), [])
    | .computed call oldTime time =>
      some (atomicCmpset s cpu cpu oldTime time (.again call) call.leave [.returned cpu time])
    | .compare remote => some (s.setPc cpu (.read remote (s.data cpu).time), [])
    | .read remote localTime => some (s.setPc cpu (.chosen remote localTime (s.data remote).time), [])
    | .chosen remote localTime remoteTime =>
      if (remoteTime - localTime).toInt < 0 then
        some (atomicCmpset s cpu remote remoteTime localTime (.compare remote) .out
          [.compared cpu remote localTime remoteTime localTime])
      else
        some (atomicCmpset s cpu cpu localTime remoteTime (.compare remote) .out
          [.compared cpu remote localTime remoteTime remoteTime])

/-- `sched_time_init`. -/
def schedTimeInit (sysNow : BitVec 64) : TimeState where
  data := fun _ => ⟨0, sysNow, sysNow⟩
  pc := fun _ => .out

/-- Any interleaving of the CPUs, with everything that happened. -/
def timeRun (tickNs : Nat) (sysNow : BitVec 64) (actions : List TimeAction) : Option (TimeState × List TimeEvent) :=
  actions.foldlM (fun run action => (timeStep tickNs run.1 action).map fun next => (next.1, run.2 ++ next.2))
    (schedTimeInit sysNow, [])

namespace SchedTime

/-- How far a time is from the start of the window. -/
def since (sysNow x : BitVec 64) : Nat := (x - sysNow).toNat

/-- The last uptime sample of a CPU. -/
def lastSample (sysNow : BitVec 64) (cpu : Nat) (trace : List TimeEvent) : BitVec 64 :=
  trace.foldl (fun last event =>
    match event with
    | .sampled cpu' x => if cpu' = cpu then x else last
    | _ => last) sysNow

/-- The uptime samples of each CPU do not decrease, and with a tick more they stay in the window. -/
structure Uptime (tickNs : Nat) (sysNow : BitVec 64) (trace : List TimeEvent) : Prop where
  tick : tickNs < 2 ^ 63
  window : ∀ cpu x, .sampled cpu x ∈ trace → since sysNow x + tickNs < 2 ^ 63
  rising : ∀ before cpu x after, trace = before ++ .sampled cpu x :: after →
    since sysNow (lastSample sysNow cpu before) ≤ since sysNow x

section wrap
variable {b x y t l h : BitVec 64}

/-- Two times less than half the range apart compare as their distances do. -/
theorem toInt_sub (near : since b x < since b y + 2 ^ 63) (near' : since b y < since b x + 2 ^ 63) :
    (x - y).toInt = (since b x : Int) - since b y := by
  unfold since at *
  rw [BitVec.toInt_eq_toNat_cond]
  simp only [BitVec.toNat_sub] at *
  have hx := x.isLt
  have hy := y.isLt
  have hb := b.isLt
  split <;> omega

theorem since_wrapMax64 (hx : since b x < 2 ^ 63) (hy : since b y < 2 ^ 63) :
    since b (wrapMax64 x y) = max (since b x) (since b y) := by
  have diff : (x - y).toInt = (since b x : Int) - since b y := toInt_sub (by omega) (by omega)
  unfold wrapMax64
  rw [diff]
  split <;> omega

theorem since_add {n : Nat} (bound : since b x + n < 2 ^ 63) :
    since b (x + BitVec.ofNat 64 n) = since b x + n := by
  unfold since at *
  simp only [BitVec.toNat_sub, BitVec.toNat_add, BitVec.toNat_ofNat] at *
  have hx := x.isLt
  have hb := b.isLt
  omega

/-- Whatever the counter says, the result lies between the two bounds. -/
theorem since_clamp (order : since b l ≤ since b h) (bound : since b h < 2 ^ 63) :
    since b l ≤ since b (wrapMin64 (wrapMax64 t l) h) ∧
    since b (wrapMin64 (wrapMax64 t l) h) ≤ since b h := by
  -- a time ahead of the lower bound lies less than half the range ahead of it
  have ahead : (t - l).toInt > 0 → since b l ≤ since b t ∧ since b t < since b l + 2 ^ 63 := by
    intro positive
    unfold since at *
    rw [BitVec.toInt_eq_toNat_cond] at positive
    simp only [BitVec.toNat_sub] at *
    have ht := t.isLt
    have hl := l.isLt
    have hb := b.isLt
    split at positive <;> omega
  obtain ⟨lower, near⟩ : since b l ≤ since b (wrapMax64 t l) ∧
      since b (wrapMax64 t l) < since b l + 2 ^ 63 := by
    unfold wrapMax64
    split
    · exact ahead ‹_›
    · exact ⟨Nat.le_refl _, by omega⟩
  have diff : (wrapMax64 t l - h).toInt = (since b (wrapMax64 t l) : Int) - since b h :=
    toInt_sub (by omega) (by omega)
  unfold wrapMin64
  rw [diff]
  split <;> omega

end wrap

/-- One result of `sched_time_local`: not before the clock and the last sample, and not more
than a tick after the later of the two. -/
theorem schedTimeLocal_bounds {base n : BitVec 64} {tickNs : Nat} {data : SchedTimeData}
    (sys : since base data.tickSysTime + tickNs < 2 ^ 63) (time : since base data.time < 2 ^ 63) :
    since base data.time ≤ since base (schedTimeLocal tickNs data n) ∧
    since base data.tickSysTime ≤ since base (schedTimeLocal tickNs data n) ∧
    since base (schedTimeLocal tickNs data n) ≤ max (since base data.time) (since base data.tickSysTime + tickNs) := by
  have later := since_add sys
  have minTime := since_wrapMax64 (x := data.tickSysTime) (y := data.time) (b := base) (by omega) time
  have maxTime := since_wrapMax64 (x := data.time) (b := base)
    (y := data.tickSysTime + BitVec.ofNat 64 tickNs) time (by omega)
  have clamp := since_clamp (b := base) (l := wrapMax64 data.tickSysTime data.time)
    (h := wrapMax64 data.time (data.tickSysTime + BitVec.ofNat 64 tickNs))
    (t := data.tickSysTime + if (n - data.tickCpuTime).toInt < 0 then 0 else n - data.tickCpuTime)
    (by omega) (by omega)
  rw [minTime, maxTime, later] at clamp
  unfold schedTimeLocal
  dsimp only
  omega

theorem lastSample_append (sysNow : BitVec 64) (cpu : Nat) (trace events : List TimeEvent) :
    lastSample sysNow cpu (trace ++ events) = lastSample (lastSample sysNow cpu trace) cpu events :=
  List.foldl_append ..

/-- What a CPU has read stays below the clocks it has read it from. -/
def PcFits (tickNs : Nat) (base : BitVec 64) (data : Nat → SchedTimeData) (cpu : Nat) (last : BitVec 64) :
    TimePc → Prop
  | .sampled sysNow | .ticked sysNow =>
    sysNow = last ∧ since base last + tickNs < 2 ^ 63 ∧ since base (data cpu).tickSysTime ≤ since base last
  | .computed _ oldTime time =>
    (data cpu).tickSysTime = last ∧ since base oldTime ≤ since base time ∧ since base time < 2 ^ 63 ∧
    since base last ≤ since base time ∧ since base time ≤ max (since base oldTime) (since base last + tickNs)
  | .read _ localTime => (data cpu).tickSysTime = last ∧ since base localTime ≤ since base (data cpu).time
  | .chosen remote localTime remoteTime =>
    (data cpu).tickSysTime = last ∧ since base localTime ≤ since base (data cpu).time ∧
    since base remoteTime ≤ since base (data remote).time
  | _ => (data cpu).tickSysTime = last

/-- What holds of the clocks after every step of every interleaving. -/
structure Fits (tickNs : Nat) (base : BitVec 64) (s : TimeState) (trace : List TimeEvent) : Prop where
  time : ∀ cpu, since base (s.data cpu).time < 2 ^ 63
  sys : ∀ cpu, since base (s.data cpu).tickSysTime + tickNs < 2 ^ 63
  pc : ∀ cpu, PcFits tickNs base s.data cpu (lastSample base cpu trace) (s.pc cpu)
  seen : ∀ cpu v, .stored cpu v ∈ trace ∨ .returned cpu v ∈ trace → since base v ≤ since base (s.data cpu).time

/-- No clock goes back. -/
def Forward (base : BitVec 64) (d d' : Nat → SchedTimeData) : Prop :=
  ∀ cpu, since base (d cpu).time ≤ since base (d' cpu).time

section steps
variable {tickNs : Nat} {base : BitVec 64} {s s' : TimeState} {trace events : List TimeEvent}
  {d d' : Nat → SchedTimeData} {cpu : Nat} {last : BitVec 64} {pc : TimePc}

theorem PcFits.forward (h : PcFits tickNs base d cpu last pc) (forward : Forward base d d')
    (same : (d' cpu).tickSysTime = (d cpu).tickSysTime) : PcFits tickNs base d' cpu last pc := by
  cases pc with
  | read remote localTime => exact ⟨same.trans h.1, Nat.le_trans h.2 (forward cpu)⟩
  | chosen remote localTime remoteTime =>
    exact ⟨same.trans h.1, Nat.le_trans h.2.1 (forward cpu), Nat.le_trans h.2.2 (forward remote)⟩
  | sampled sysNow => exact ⟨h.1, h.2.1, same ▸ h.2.2⟩
  | ticked sysNow => exact ⟨h.1, h.2.1, same ▸ h.2.2⟩
  | computed call oldTime time => exact ⟨same.trans h.1, h.2⟩
  | out => exact same.trans h
  | tick => exact same.trans h
  | again call => exact same.trans h
  | compare remote => exact same.trans h

/-- A step that stores no time. -/
theorem Fits.move {c : Nat} (h : Fits tickNs base s trace)
    (time : ∀ cpu, (s'.data cpu).time = (s.data cpu).time)
    (sys : ∀ cpu, since base (s'.data cpu).tickSysTime + tickNs < 2 ^ 63)
    (others : ∀ u, u ≠ c → s'.pc u = s.pc u ∧ (s'.data u).tickSysTime = (s.data u).tickSysTime ∧
      lastSample base u (trace ++ events) = lastSample base u trace)
    (own : PcFits tickNs base s'.data c (lastSample base c (trace ++ events)) (s'.pc c))
    (quiet : ∀ u v, .stored u v ∉ events ∧ .returned u v ∉ events) : Fits tickNs base s' (trace ++ events) where
  time := fun u => time u ▸ h.time u
  sys := sys
  pc := fun u => by
    by_cases same : u = c
    · exact same ▸ own
    · obtain ⟨pc, sys, last⟩ := others u same
      rw [pc, last]
      exact (h.pc u).forward (fun v => Nat.le_of_eq (by rw [time v])) sys
  seen := fun u v member => by
    rw [time u]
    refine h.seen u v ?_
    simpa [List.mem_append, quiet u v] using member

theorem lastSample_quiet {u : Nat} (quiet : ∀ x, .sampled u x ∉ events) :
    lastSample base u (trace ++ events) = lastSample base u trace := by
  rw [lastSample_append]
  generalize lastSample base u trace = start
  unfold lastSample
  induction events with
  | nil => rfl
  | cons e rest ih =>
    have still := ih fun x member => quiet x (List.mem_cons_of_mem _ member)
    cases e with
    | sampled v x =>
      have other : v ≠ u := fun same => quiet x (by simp [same])
      simpa [List.foldl_cons, other] using still
    | stored v x => exact still
    | returned v x => exact still
    | compared v r a b x => exact still

/-- A compare-and-set that raises the clock, or fails. -/
theorem Fits.cmpset {target : Nat} {old val : BitVec 64} {again done : TimePc} {notes : List TimeEvent}
    (h : Fits tickNs base s trace) (grows : since base old ≤ since base val) (bound : since base val < 2 ^ 63)
    (plain : ∀ d pc, pc = again ∨ pc = done → (d cpu).tickSysTime = lastSample base cpu trace →
      PcFits tickNs base d cpu (lastSample base cpu trace) pc)
    (current : (s.data cpu).tickSysTime = lastSample base cpu trace)
    (noted : ∀ e ∈ notes, e = .returned target val ∨ ∃ a b v, e = .compared cpu a b v val)
    (step : atomicCmpset s cpu target old val again done notes = (s', events)) :
    Forward base s.data s'.data ∧ Fits tickNs base s' (trace ++ events) := by
  have unsampled (u : Nat) (x : BitVec 64) : .sampled u x ∉ TimeEvent.stored target val :: notes := by
    intro member
    rcases List.mem_cons.mp member with eq | member
    · exact TimeEvent.noConfusion eq
    · rcases noted _ member with eq | ⟨_, _, _, eq⟩ <;> exact TimeEvent.noConfusion eq
  unfold atomicCmpset at step
  split at step
  next same =>
    obtain ⟨rfl, rfl⟩ := Prod.mk.inj step
    have forward : Forward base s.data ((s.setTime target val).setPc cpu done).data := by
      intro u
      by_cases here : u = target
      · simpa [here, same] using grows
      · simp [here]
    refine ⟨forward, ⟨fun u => ?_, fun u => ?_, fun u => ?_, fun u v member => ?_⟩⟩
    · by_cases here : u = target
      · simpa [here] using bound
      · simpa [here] using h.time u
    · simpa using h.sys u
    · rw [lastSample_quiet (unsampled u)]
      by_cases here : u = cpu
      · subst here
        simpa using plain _ done (.inr rfl) (by simpa using current)
      · have kept := (h.pc u).forward forward (by simp)
        simpa [here] using kept
    · have old : (.stored u v ∈ trace ∨ .returned u v ∈ trace) ∨ u = target ∧ v = val := by
        simp only [List.mem_append, List.mem_cons] at member
        rcases member with (inTrace | eq | inNotes) | (inTrace | eq | inNotes)
        · exact .inl (.inl inTrace)
        · exact .inr (TimeEvent.stored.inj eq)
        · rcases noted _ inNotes with eq | ⟨_, _, _, eq⟩ <;> exact TimeEvent.noConfusion eq
        · exact .inl (.inr inTrace)
        · exact TimeEvent.noConfusion eq
        · rcases noted _ inNotes with eq | ⟨_, _, _, eq⟩
          · exact .inr (TimeEvent.returned.inj eq)
          · exact TimeEvent.noConfusion eq
      rcases old with inTrace | ⟨rfl, rfl⟩
      · exact Nat.le_trans (h.seen u v inTrace) (forward u)
      · simp
  next differs =>
    obtain ⟨rfl, rfl⟩ := Prod.mk.inj step
    refine ⟨fun u => Nat.le_refl _, h.move (c := cpu) (fun u => rfl) h.sys (fun u other => ?_) ?_ (by simp)⟩
    · simp [other]
    · rw [List.append_nil]
      simpa using plain s.data again (.inl rfl) current

/-- Every step of any CPU keeps the clocks in order. -/
theorem timeStep_fits {action : TimeAction} (h : Fits tickNs base s trace)
    (step : timeStep tickNs s action = some (s', events)) (uptime : Uptime tickNs base (trace ++ events)) :
    Forward base s.data s'.data ∧ Fits tickNs base s' (trace ++ events) := by
  cases action with
  | call cpu call =>
    obtain ⟨out, done⟩ := Option.ite_none_right_eq_some.mp step
    obtain ⟨rfl, rfl⟩ := Prod.mk.inj (Option.some.inj done)
    have own := h.pc cpu
    rw [out] at own
    refine ⟨fun u => Nat.le_refl _, h.move (c := cpu) (fun u => rfl) h.sys (fun u other => ?_) ?_ (by simp)⟩
    · simp [other]
    · rw [List.append_nil, TimeState.setPc_pc, if_pos rfl]
      cases call <;> exact own
  | go cpu reading =>
    have own := h.pc cpu
    unfold timeStep at step
    cases at_pc : s.pc cpu with
    | out => simp [at_pc] at step
    | tick =>
      simp only [at_pc, Option.some.injEq, Prod.mk.injEq] at step own
      obtain ⟨rfl, rfl⟩ := step
      have now : lastSample base cpu (trace ++ [.sampled cpu reading]) = reading := by
        simp [lastSample]
      have window := uptime.window cpu reading (by simp)
      have rising := uptime.rising trace cpu reading [] rfl
      refine ⟨fun u => Nat.le_refl _, h.move (c := cpu) (fun u => rfl) h.sys (fun u other => ?_) ?_ (by simp)⟩
      · refine ⟨by simp [other], rfl, lastSample_quiet fun x member => ?_⟩
        obtain ⟨same, _⟩ := TimeEvent.sampled.inj (List.mem_singleton.mp member)
        exact other same
      · rw [now, TimeState.setPc_pc, if_pos rfl]
        exact ⟨rfl, window, Nat.le_trans (Nat.le_of_eq (congrArg (since base) own)) rising⟩
    | sampled sysNow =>
      simp only [at_pc, Option.some.injEq, Prod.mk.injEq] at step own
      obtain ⟨rfl, rfl⟩ := step
      have times (u : Nat) : (update s.data cpu { s.data cpu with tickCpuTime := reading } u).time = (s.data u).time := by
        by_cases same : u = cpu <;> simp [same]
      have samples (u : Nat) :
          (update s.data cpu { s.data cpu with tickCpuTime := reading } u).tickSysTime = (s.data u).tickSysTime := by
        by_cases same : u = cpu <;> simp [same]
      refine ⟨fun u => Nat.le_of_eq (congrArg (since base) (times u).symm),
        h.move (c := cpu) times (fun u => ?_) (fun u other => ?_) ?_ (by simp)⟩
      · simpa [samples u] using h.sys u
      · simp [other]
      · rw [List.append_nil, TimeState.setPc_pc, if_pos rfl]
        simpa [PcFits] using own
    | ticked sysNow =>
      simp only [at_pc, Option.some.injEq, Prod.mk.injEq] at step own
      obtain ⟨rfl, rfl⟩ := step
      obtain ⟨last, window, _⟩ := own
      have times (u : Nat) : (update s.data cpu { s.data cpu with tickSysTime := sysNow } u).time = (s.data u).time := by
        by_cases same : u = cpu <;> simp [same]
      refine ⟨fun u => Nat.le_of_eq (congrArg (since base) (times u).symm),
        h.move (c := cpu) times (fun u => ?_) (fun u other => ?_) ?_ (by simp)⟩
      · by_cases same : u = cpu
        · simpa [same, last] using window
        · simpa [same] using h.sys u
      · simp [other]
      · rw [List.append_nil, TimeState.setPc_pc, if_pos rfl]
        simpa [PcFits] using last
    | again call =>
      simp only [at_pc, Option.some.injEq, Prod.mk.injEq] at step own
      obtain ⟨rfl, rfl⟩ := step
      have current : (s.data cpu).tickSysTime = lastSample base cpu trace := own
      obtain ⟨grows, after, before⟩ := schedTimeLocal_bounds (n := reading) (h.sys cpu) (h.time cpu)
      have bound := h.time cpu
      have window := h.sys cpu
      refine ⟨fun u => Nat.le_refl _, h.move (c := cpu) (fun u => rfl) h.sys (fun u other => ?_) ?_ (by simp)⟩
      · simp [other]
      · rw [List.append_nil, TimeState.setPc_pc, if_pos rfl, ← current]
        exact ⟨rfl, grows, by omega, after, before⟩
    | computed call oldTime time =>
      simp only [at_pc, Option.some.injEq] at step own
      obtain ⟨current, grows, bound, _, _⟩ := own
      refine h.cmpset grows bound ?_ current (by simp) step
      rintro d pc (rfl | rfl) same
      · exact same
      · cases call <;> exact same
    | compare remote =>
      simp only [at_pc, Option.some.injEq, Prod.mk.injEq] at step own
      obtain ⟨rfl, rfl⟩ := step
      refine ⟨fun u => Nat.le_refl _, h.move (c := cpu) (fun u => rfl) h.sys (fun u other => ?_) ?_ (by simp)⟩
      · simp [other]
      · rw [List.append_nil, TimeState.setPc_pc, if_pos rfl]
        exact ⟨own, Nat.le_refl _⟩
    | read remote localTime =>
      simp only [at_pc, Option.some.injEq, Prod.mk.injEq] at step own
      obtain ⟨rfl, rfl⟩ := step
      refine ⟨fun u => Nat.le_refl _, h.move (c := cpu) (fun u => rfl) h.sys (fun u other => ?_) ?_ (by simp)⟩
      · simp [other]
      · rw [List.append_nil, TimeState.setPc_pc, if_pos rfl]
        exact ⟨own.1, own.2, Nat.le_refl _⟩
    | chosen remote localTime remoteTime =>
      simp only [at_pc] at step own
      obtain ⟨current, ours, theirs⟩ := own
      have oursBound := h.time cpu
      have theirsBound := h.time remote
      have diff : (remoteTime - localTime).toInt = (since base remoteTime : Int) - since base localTime :=
        toInt_sub (by omega) (by omega)
      have plain (d : Nat → SchedTimeData) (pc : TimePc) (which : pc = .compare remote ∨ pc = .out)
          (same : (d cpu).tickSysTime = lastSample base cpu trace) :
          PcFits tickNs base d cpu (lastSample base cpu trace) pc := by
        rcases which with rfl | rfl <;> exact same
      rw [diff] at step
      split at step
      next behind =>
        exact h.cmpset (by omega) (by omega) plain current (by simp) (Option.some.inj step)
      next ahead =>
        exact h.cmpset (by omega) (by omega) plain current (by simp) (Option.some.inj step)

theorem Uptime.before {later : List TimeEvent} (h : Uptime tickNs base (trace ++ later)) : Uptime tickNs base trace where
  tick := h.tick
  window := fun cpu x member => h.window cpu x (List.mem_append_left _ member)
  rising := fun before cpu x after split => by
    refine h.rising before cpu x (after ++ later) ?_
    rw [split, List.append_assoc, List.cons_append]

theorem timeRun_append {actions : List TimeAction} {action : TimeAction}
    (run : timeRun tickNs base (actions ++ [action]) = some (s', trace)) :
    ∃ s before events, timeRun tickNs base actions = some (s, before) ∧
      timeStep tickNs s action = some (s', events) ∧ trace = before ++ events := by
  unfold timeRun at run
  rw [List.foldlM_append] at run
  obtain ⟨⟨s, before⟩, first, last⟩ := Option.bind_eq_some_iff.mp run
  rw [List.foldlM_cons] at last
  obtain ⟨next, mapped, done⟩ := Option.bind_eq_some_iff.mp last
  obtain ⟨⟨s'', events⟩, step, rfl⟩ := Option.map_eq_some_iff.mp mapped
  obtain ⟨rfl, rfl⟩ := Prod.mk.inj (Option.some.inj done)
  exact ⟨s, before, events, first, step, rfl⟩

theorem timeRun_fits {actions : List TimeAction} (run : timeRun tickNs base actions = some (s, trace))
    (uptime : Uptime tickNs base trace) : Fits tickNs base s trace := by
  induction actions using List.reverseRecOn generalizing s trace with
  | nil =>
    obtain ⟨rfl, rfl⟩ := Prod.mk.inj (Option.some.inj run)
    have start : since base base = 0 := by simp [since]
    have tick := uptime.tick
    refine ⟨fun cpu => ?_, fun cpu => ?_, fun cpu => rfl, by simp⟩
    · show since base base < 2 ^ 63
      omega
    · show since base base + tickNs < 2 ^ 63
      omega
  | append_singleton actions action ih =>
    obtain ⟨before, trace, events, first, step, rfl⟩ := timeRun_append run
    exact (timeStep_fits (ih first uptime.before) step uptime).2

/-- The CPU is not inside `sched_time_remote`. -/
def TimePc.alone : TimePc → Prop
  | .again (.schedTimeRemote _) | .computed (.schedTimeRemote _) _ _ => False
  | .compare _ | .read _ _ | .chosen _ _ _ => False
  | _ => True

/-- Without remote reads no clock is more than a tick ahead of its last sample. -/
def Alone (tickNs : Nat) (base : BitVec 64) (s : TimeState) : Prop :=
  ∀ cpu, TimePc.alone (s.pc cpu) ∧ since base (s.data cpu).time ≤ since base (s.data cpu).tickSysTime + tickNs

theorem timeStep_alone {action : TimeAction} (h : Fits tickNs base s trace) (alone : Alone tickNs base s)
    (step : timeStep tickNs s action = some (s', events))
    (request : ∀ cpu remote, action ≠ .call cpu (.schedTimeRemote remote)) : Alone tickNs base s' := by
  -- only the CPU that makes the step has anything new
  have others {t : TimeState} {c : Nat} (pc : TimePc.alone (t.pc c))
      (clock : since base (t.data c).time ≤ since base (t.data c).tickSysTime + tickNs)
      (same : ∀ u, u ≠ c → t.pc u = s.pc u ∧ t.data u = s.data u) : Alone tickNs base t := by
    intro u
    by_cases here : u = c
    · exact here ▸ ⟨pc, clock⟩
    · obtain ⟨samePc, sameData⟩ := same u here
      rw [samePc, sameData]
      exact alone u
  cases action with
  | call cpu call =>
    obtain ⟨_, done⟩ := Option.ite_none_right_eq_some.mp step
    obtain ⟨rfl, rfl⟩ := Prod.mk.inj (Option.some.inj done)
    refine others (c := cpu) ?_ (alone cpu).2 fun u other => by simp [other]
    rw [TimeState.setPc_pc, if_pos rfl]
    cases call with
    | schedTimeRemote remote => exact absurd rfl (request cpu remote)
    | schedTimeLocal => trivial
    | schedTimeTick => trivial
  | go cpu reading =>
    obtain ⟨pc, clock⟩ := alone cpu
    have own := h.pc cpu
    unfold timeStep at step
    cases at_pc : s.pc cpu with
    | out => simp [at_pc] at step
    | tick =>
      simp only [at_pc, Option.some.injEq, Prod.mk.injEq] at step
      obtain ⟨rfl, rfl⟩ := step
      refine others (c := cpu) ?_ clock fun u other => by simp [other]
      rw [TimeState.setPc_pc, if_pos rfl]
      trivial
    | sampled sysNow =>
      simp only [at_pc, Option.some.injEq, Prod.mk.injEq] at step
      obtain ⟨rfl, rfl⟩ := step
      refine others (c := cpu) ?_ (by simpa using clock) fun u other => by simp [other]
      rw [TimeState.setPc_pc, if_pos rfl]
      trivial
    | ticked sysNow =>
      simp only [at_pc, Option.some.injEq, Prod.mk.injEq] at step own
      obtain ⟨rfl, rfl⟩ := step
      obtain ⟨rfl, _, rising⟩ := own
      refine others (c := cpu) ?_ ?_ fun u other => by simp [other]
      · rw [TimeState.setPc_pc, if_pos rfl]
        trivial
      · simp only [TimeState.setPc_data, update_self]
        omega
    | again call =>
      simp only [at_pc, Option.some.injEq, Prod.mk.injEq] at step pc
      obtain ⟨rfl, rfl⟩ := step
      refine others (c := cpu) ?_ clock fun u other => by simp [other]
      rw [TimeState.setPc_pc, if_pos rfl]
      cases call <;> exact pc
    | computed call oldTime time =>
      simp only [at_pc, Option.some.injEq] at step own pc
      obtain ⟨current, _, _, _, before⟩ := own
      unfold atomicCmpset at step
      split at step
      next same =>
        obtain ⟨rfl, rfl⟩ := Prod.mk.inj step
        refine others (c := cpu) ?_ ?_ fun u other => ⟨by simp [other], ?_⟩
        · rw [TimeState.setPc_pc, if_pos rfl]
          cases call <;> exact pc
        · rw [TimeState.setPc_data, TimeState.setTime_time, TimeState.setTime_sys, if_pos rfl, current]
          rw [same, current] at clock
          omega
        · exact update_of_ne other _ _
      next differs =>
        obtain ⟨rfl, rfl⟩ := Prod.mk.inj step
        refine others (c := cpu) ?_ clock fun u other => by simp [other]
        rw [TimeState.setPc_pc, if_pos rfl]
        cases call <;> exact pc
    | compare remote =>
      rw [at_pc] at pc
      exact pc.elim
    | read remote localTime =>
      rw [at_pc] at pc
      exact pc.elim
    | chosen remote localTime remoteTime =>
      rw [at_pc] at pc
      exact pc.elim

theorem timeRun_alone {actions : List TimeAction} (run : timeRun tickNs base actions = some (s, trace))
    (uptime : Uptime tickNs base trace) (request : ∀ cpu remote, .call cpu (.schedTimeRemote remote) ∉ actions) :
    Alone tickNs base s := by
  induction actions using List.reverseRecOn generalizing s trace with
  | nil =>
    obtain ⟨rfl, rfl⟩ := Prod.mk.inj (Option.some.inj run)
    exact fun cpu => ⟨trivial, Nat.le_add_right _ _⟩
  | append_singleton actions action ih =>
    obtain ⟨before, trace, events, first, step, rfl⟩ := timeRun_append run
    have earlier : Alone tickNs base before :=
      ih first uptime.before fun cpu remote member => request cpu remote (List.mem_append_left _ member)
    refine timeStep_alone (timeRun_fits first uptime.before) earlier step fun cpu remote same => ?_
    exact request cpu remote (by simp [same])

/-- The compare-and-set of the step that makes a note has succeeded. -/
theorem noted_step {action : TimeAction} {e : TimeEvent} (step : timeStep tickNs s action = some (s', events))
    (member : e ∈ events) (note : (∃ cpu v, e = .returned cpu v) ∨ ∃ cpu remote a b v, e = .compared cpu remote a b v) :
    ∃ cpu target val done, s' = (s.setTime target val).setPc cpu done ∧ events = [.stored target val, e] ∧
      ((target = cpu ∧ e = .returned cpu val ∧ ∃ call oldTime, s.pc cpu = .computed call oldTime val) ∨
      ∃ remote a b, s.pc cpu = .chosen remote a b ∧ e = .compared cpu remote a b val ∧
        if (b - a).toInt < 0 then target = remote ∧ val = a else target = cpu ∧ val = b) := by
  have set {cpu target : Nat} {old val : BitVec 64} {again done : TimePc} {last : TimeEvent}
      (set : atomicCmpset s cpu target old val again done [last] = (s', events)) :
      s' = (s.setTime target val).setPc cpu done ∧ events = [.stored target val, e] ∧ e = last := by
    unfold atomicCmpset at set
    split at set
    · obtain ⟨rfl, rfl⟩ := Prod.mk.inj set
      rcases List.mem_cons.mp member with rfl | member
      · rcases note with ⟨_, _, eq⟩ | ⟨_, _, _, _, _, eq⟩ <;> exact TimeEvent.noConfusion eq
      · obtain rfl := List.mem_singleton.mp member
        exact ⟨rfl, rfl, rfl⟩
    · obtain ⟨rfl, rfl⟩ := Prod.mk.inj set
      simp at member
  have silent : events ≠ [] := List.ne_nil_of_mem member
  cases action with
  | call cpu call =>
    obtain ⟨_, done⟩ := Option.ite_none_right_eq_some.mp step
    exact absurd (Prod.mk.inj (Option.some.inj done)).2.symm silent
  | go cpu reading =>
    unfold timeStep at step
    cases at_pc : s.pc cpu with
    | out => simp [at_pc] at step
    | tick =>
      simp only [at_pc, Option.some.injEq, Prod.mk.injEq] at step
      obtain ⟨_, rfl⟩ := step
      obtain rfl := List.mem_singleton.mp member
      rcases note with ⟨_, _, eq⟩ | ⟨_, _, _, _, _, eq⟩ <;> exact TimeEvent.noConfusion eq
    | computed call oldTime time =>
      simp only [at_pc, Option.some.injEq] at step
      obtain ⟨state, notes, last⟩ := set step
      exact ⟨cpu, cpu, time, _, state, notes, .inl ⟨rfl, last, call, oldTime, at_pc⟩⟩
    | chosen remote localTime remoteTime =>
      simp only [at_pc] at step
      split at step
      next behind =>
        obtain ⟨state, notes, last⟩ := set (Option.some.inj step)
        exact ⟨cpu, remote, localTime, _, state, notes, .inr ⟨remote, localTime, remoteTime, at_pc, last, by rw [if_pos behind]; exact ⟨rfl, rfl⟩⟩⟩
      next ahead =>
        obtain ⟨state, notes, last⟩ := set (Option.some.inj step)
        exact ⟨cpu, cpu, remoteTime, _, state, notes, .inr ⟨remote, localTime, remoteTime, at_pc, last, by rw [if_neg ahead]; exact ⟨rfl, rfl⟩⟩⟩
    | _ =>
      simp only [at_pc, Option.some.injEq, Prod.mk.injEq] at step
      exact absurd step.2.symm silent

/-- A local read returns the value it has just stored. -/
theorem returned_step {action : TimeAction} {v : BitVec 64} (step : timeStep tickNs s action = some (s', events))
    (member : .returned cpu v ∈ events) :
    (s'.data cpu).time = v ∧ (s'.data cpu).tickSysTime = (s.data cpu).tickSysTime ∧
      events = [.stored cpu v, .returned cpu v] ∧ ∃ call oldTime, s.pc cpu = .computed call oldTime v := by
  obtain ⟨u, target, val, done, rfl, notes, ⟨rfl, eq, at_pc⟩ | ⟨_, _, _, _, eq, _⟩⟩ := noted_step step member (.inl ⟨_, _, rfl⟩)
  · obtain ⟨rfl, rfl⟩ := TimeEvent.returned.inj eq
    exact ⟨by simp, by simp, notes, at_pc⟩
  · exact TimeEvent.noConfusion eq

/-- A remote read returns the later of the two times, and leaves neither clock before it. -/
theorem compared_step {action : TimeAction} {remote : Nat} {a b v : BitVec 64} (h : Fits tickNs base s trace)
    (step : timeStep tickNs s action = some (s', events)) (member : .compared cpu remote a b v ∈ events) :
    since base v = max (since base a) (since base b) ∧
      since base v ≤ since base (s'.data cpu).time ∧ since base v ≤ since base (s'.data remote).time := by
  obtain ⟨u, target, val, done, rfl, _, ⟨_, eq, _⟩ | ⟨_, _, _, at_pc, eq, chosen⟩⟩ :=
    noted_step step member (.inr ⟨_, _, _, _, _, rfl⟩)
  · exact TimeEvent.noConfusion eq
  · obtain ⟨rfl, rfl, rfl, rfl, rfl⟩ := TimeEvent.compared.inj eq
    have own := h.pc cpu
    rw [at_pc] at own
    obtain ⟨_, ours, theirs⟩ := own
    have oursBound := h.time cpu
    have theirsBound := h.time remote
    have diff : (b - a).toInt = (since base b : Int) - since base a := toInt_sub (by omega) (by omega)
    rw [diff] at chosen
    simp only [TimeState.setPc_data, TimeState.setTime_time]
    split at chosen
    next behind =>
      obtain ⟨rfl, rfl⟩ := chosen
      refine ⟨by omega, ?_, by simp⟩
      split <;> omega
    next ahead =>
      obtain ⟨rfl, rfl⟩ := chosen
      refine ⟨by omega, by simp, ?_⟩
      split <;> omega

end steps

/-- What one more step of a run does to the clocks. -/
structure Monotone (base : BitVec 64) (s s' : TimeState) (trace events : List TimeEvent) : Prop where
  forward : Forward base s.data s'.data
  returned : ∀ cpu v, .returned cpu v ∈ events →
    ∀ w, .stored cpu w ∈ trace ∨ .returned cpu w ∈ trace → since base w ≤ since base v
  remote : ∀ cpu remote a b v, .compared cpu remote a b v ∈ events →
    since base a ≤ since base v ∧ since base b ≤ since base v ∧
    since base v ≤ since base (s'.data cpu).time ∧ since base v ≤ since base (s'.data remote).time

/-- The clock of no CPU ever goes back, whatever the tick counters return. Without remote reads,
when `sched_time_local` returns (also to `sched_time_tick`, whose last step it is), the clock is
at most a tick ahead of the last uptime sample and not behind it. -/
theorem sched_time_monotone (tickNs : Nat) (sysNow : BitVec 64) (actions : List TimeAction) (s : TimeState)
    (trace : List TimeEvent) (run : timeRun tickNs sysNow actions = some (s, trace))
    (action : TimeAction) (s' : TimeState) (events : List TimeEvent)
    (step : timeStep tickNs s action = some (s', events)) (uptime : Uptime tickNs sysNow (trace ++ events)) :
    Monotone sysNow s s' trace events ∧
    ((∀ cpu remote, .call cpu (.schedTimeRemote remote) ∉ actions) →
      ∀ cpu v, .returned cpu v ∈ events →
        since sysNow (lastSample sysNow cpu (trace ++ events)) ≤ since sysNow (s'.data cpu).time ∧
        since sysNow (s'.data cpu).time ≤ since sysNow (lastSample sysNow cpu (trace ++ events)) + tickNs) := by
  have fits := timeRun_fits run uptime.before
  obtain ⟨forward, _⟩ := timeStep_fits fits step uptime
  refine ⟨⟨forward, fun cpu v member w earlier => ?_, fun cpu remote a b v member => ?_⟩, fun request cpu v member => ?_⟩
  · obtain ⟨stored, _⟩ := returned_step step member
    exact stored ▸ Nat.le_trans (fits.seen cpu w earlier) (forward cpu)
  · obtain ⟨later, ours, theirs⟩ := compared_step fits step member
    exact ⟨by omega, by omega, ours, theirs⟩
  · obtain ⟨stored, sys, rfl, call, oldTime, at_pc⟩ := returned_step step member
    have alone : Alone tickNs sysNow s' := by
      refine timeStep_alone fits (timeRun_alone run uptime.before request) step fun u remote same => ?_
      subst same
      have silent := (Prod.mk.inj (Option.some.inj (Option.ite_none_right_eq_some.mp step).2)).2
      simp at silent
    have own := fits.pc cpu
    rw [at_pc] at own
    obtain ⟨current, _, _, after, _⟩ := own
    have bound := (alone cpu).2
    rw [sys, current] at bound
    rw [lastSample_quiet (by simp)]
    exact ⟨stored ▸ after, bound⟩

/-- CPU 0 ticks while its counter goes backward, then CPU 1 reads the clock of CPU 0. -/
def twoCpus : List TimeAction :=
  [.call 0 .schedTimeTick, .go 0 105, .go 0 7, .go 0 0, .go 0 3, .go 0 0,
    .call 1 (.schedTimeRemote 0), .go 1 2, .go 1 0, .go 1 0, .go 1 0]

theorem sched_time_monotone_two_cpus :
    ∃ s s', timeRun 10 100 twoCpus =
        some (s, [.sampled 0 105, .stored 0 105, .returned 0 105, .stored 1 102, .returned 1 102]) ∧
      timeStep 10 s (.go 1 0) = some (s', [.stored 1 105, .compared 1 0 102 105 105]) ∧
      Monotone 100 s s' [.sampled 0 105, .stored 0 105, .returned 0 105, .stored 1 102, .returned 1 102]
        [.stored 1 105, .compared 1 0 102 105 105] := by
  have uptime : Uptime 10 100 ([.sampled 0 105, .stored 0 105, .returned 0 105, .stored 1 102, .returned 1 102] ++
      [.stored 1 105, .compared 1 0 102 105 105]) := by
    refine ⟨by decide, fun cpu x member => ?_, fun before cpu x after split => ?_⟩
    · have only : x = 105 := by
        simp at member
        exact member.2
      subst only
      decide
    · have only : before = [] ∧ x = 105 := by
        simp [List.cons_eq_append_iff] at split
        obtain ⟨rfl, ⟨_, rfl⟩, _⟩ := split
        exact ⟨rfl, rfl⟩
      obtain ⟨rfl, rfl⟩ := only
      show since 100 100 ≤ since 100 105
      decide
  exact ⟨_, _, rfl, rfl, (sched_time_monotone 10 100 twoCpus _ _ rfl (.go 1 0) _ _ rfl uptime).1⟩

end SchedTime
end SfqSched
