import SfqSched.PssClass

namespace SfqSched
open State

/-- `rt_put_prev_thread`. -/
def rtPutPrevThread (s : State) (t : Tid) (flags : Nat) : Option State := do
  let s ←
    if (s.ent (.thread t)).joined then
      if (s.ent (.thread t)).onRunq then none
      else
        let s := setTdState s t .runq
        let s := runqAdd s t (flags &&& swTypeMask = swtPreempt)
        some (s.modEnt (.thread t) fun se => { se with onRunq := true })
    else some s
  some (s.modRq fun rq => { rq with rtCurr := none })

/-- `rt_activate_thread`. -/
def rtActivateThread (s : State) (t : Tid) : Option State :=
  let se := s.ent (.thread t)
  if se.joined ∧ se.onRunq ∧ ¬se.onSfq then
    let s := runqRemove s t
    let s := s.modEnt (.thread t) fun se =>
      { se with
        onRunq := false
        timingStart := s.kernel.schedTimeCpu s.reads
        prevSumExecTime := se.sumExecTime }
    let s := { s with reads := s.reads + 1 }
    let s := s.modRq fun rq => { rq with rtCurr := some (.thread t) }
    some (setTdState s t .running)
  else none

/-- `rt_enqueue_thread`. -/
def rtEnqueueThread (s : State) (t : Tid) (flags : Nat) : Option State :=
  let se := s.ent (.thread t)
  if se.joined ∨ se.onRunq ∨ se.onSfq then none
  else
    let s := runqAdd s t (flags &&& enqueueHead ≠ 0)
    let s := s.modEnt (.thread t) fun se => { se with onRunq := true }
    let s := setTdState s t .runq
    let s := rqRunAdd s t
    some (s.modEnt (.thread t) fun se => { se with joined := true })

/-- `rt_dequeue_thread`. -/
def rtDequeueThread (s : State) (t : Tid) : Option State :=
  if (s.ent (.thread t)).joined then do
    let s := rawRunqDequeue s t
    let s ← rqRunRem s t
    if (s.ent (.thread t)).onSfq then none
    else some (s.modEnt (.thread t) fun se => { se with joined := false })
  else some s

/-- `rt_change_priority`. -/
def rtChangePriority (s : State) (t : Tid) (prio : Nat) : Option State :=
  if (s.td t).tdState = .runq ∧ prio < (s.td t).tdPriority then
    if (s.ent (.thread t)).onRunq then
      let s := runqRemove s t
      let s := s.modTd t fun td => { td with tdPriority := prio }
      some (checkPriorityPreempt (runqAdd s t false) t)
    else none
  else some (s.modTd t fun td => { td with tdPriority := prio })

/-- `rq_slice_ns`, through `rq_slice`. -/
def rqSliceNs (s : State) : Nat :=
  let load : Int := (s.rq.nrSysrunning : Int) - 1
  let slice :=
    if load ≥ 5 then s.tun.schedSliceMin
    else if load ≤ 1 then s.tun.schedSlice
    else s.tun.schedSlice / load.toNat
  slice * s.tun.tickNs

/-- `rt_tick`. -/
def rtTick (s : State) (t : Tid) : State :=
  let slice := rqSliceNs s
  match (s.td t).tdPriClass with
  | .ithd | .fifo => s
  | _ =>
    let deltaExec := (s.kernel.schedTimeCpu s.reads - (s.ent (.thread t)).timingStart).toNat
    let s := { s with reads := s.reads + 1 }
    if slice ≤ deltaExec then reschedThread s t else s

/-- `class->enqueue_thread`; `idle_enqueue_thread` does nothing. -/
def classEnqueueThread (cls : SchedClass) (s : State) (t : Tid) (flags : Nat) : Option State :=
  match cls with
  | .realtime => rtEnqueueThread s t flags
  | .pss => pssEnqueueThread s t flags
  | .idle => some s

/-- `class->dequeue_thread`; `idle_dequeue_thread` does nothing. -/
def classDequeueThread (cls : SchedClass) (s : State) (t : Tid) (flags : Nat) : Option State :=
  match cls with
  | .realtime => rtDequeueThread s t
  | .pss => pssDequeueThread s t flags
  | .idle => some s

/-- `class->put_prev_thread`; `idle_put_prev_thread` sets `TDS_CAN_RUN`. -/
def classPutPrevThread (cls : SchedClass) (s : State) (t : Tid) (flags : Nat) : Option State :=
  match cls with
  | .realtime => rtPutPrevThread s t flags
  | .pss => pssPutPrevThread s t flags
  | .idle => some (setTdState s t .canRun)

/-- `class->activate_thread`; `idle_activate_thread` sets `TDS_RUNNING`. -/
def classActivateThread (cls : SchedClass) (s : State) (t : Tid) : Option State :=
  match cls with
  | .realtime => rtActivateThread s t
  | .pss => pssActivateThread s t
  | .idle => some (setTdState s t .running)

/-- `enqueue_thread`. -/
def enqueueThread (s : State) (t : Tid) (flags : Nat) : Option State :=
  let s := updateRqClock s
  classEnqueueThread (s.td t).cls s t flags

/-- `dequeue_thread`. -/
def dequeueThread (s : State) (t : Tid) (flags : Nat) : Option State :=
  let s := updateRqClock s
  classDequeueThread (s.td t).cls s t flags

/-- `put_prev_thread`. -/
def putPrevThread (s : State) (t : Tid) (flags : Nat) : Option State :=
  let s := if (s.ent (.thread t)).joined then updateRqClock s else s
  classPutPrevThread (s.td t).cls s t flags

/-- `activate_thread`, without the record `cpupri_set` keeps for other CPUs. -/
def activateThread (s : State) (t : Tid) : Option State := classActivateThread (s.td t).cls s t

/-- `sched_choose`: the first class with a thread to offer. -/
def schedChoose (s : State) : Option (Tid × State) :=
  let s := s.emit .choose
  match runqChoose s.rq.realtime with
  | some t => (classActivateThread (s.td t).cls s t).map fun s => (t, s)
  | none =>
    (pssPickNextThread s).bind fun (picked, s) =>
      let t := picked.getD s.idlethread
      (classActivateThread (s.td t).cls s t).map fun s => (t, s)

/-- `choosethread` and the switch to the chosen thread. -/
def chooseThread (s : State) : Option State :=
  (schedChoose s).map fun (t, s) => { setTdState s t .running with curthread := t }

/-- `sched_switch`. -/
def schedSwitch (s : State) (t : Tid) (flags : Nat) : Option State := do
  let s := s.modTd t fun td => { td with needResched := false, owePreempt := false }
  let s ←
    if (s.td t).tdState = .running then putPrevThread s t flags
    else do
      let s ← dequeueThread s t dequeueSleep
      putPrevThread s t flags
  chooseThread s

/-- `sched_throw`, with the end of the thread's life before the next is chosen:
nothing in between reads the thread's state. -/
def schedThrow (s : State) (t : Tid) : Option State := do
  let s ← dequeueThread s t 0
  let s ← putPrevThread s t 0
  let s := s.modTd t fun td => { td with tdState := .inactive, exited := true }
  let s := s.modProc (s.td t).proc fun p => { p with threads := p.threads.filter (· ≠ t) }
  chooseThread s

/-- One round of the loop of `sched_nice`. -/
def schedNiceThread (delta : Int) (s : State) (t : Tid) : Option State :=
  if (s.td t).cls ≠ .pss then some (setThreadWeight s t)
  else do
    let onRq := (s.td t).tdState = .runq
    let running := (s.td t).tdState = .running
    let s ← if onRq ∨ running then dequeueThread s t 0 else some s
    let s ← if running then putPrevThread s t 0 else some s
    let s := setThreadWeight s t
    let s ← if onRq ∨ running then enqueueThread s t 0 else some s
    let s ← if running then (activateThread s t).map fun s => setTdState s t .running else some s
    some (if delta < 0 ∨ delta > 0 ∧ running then reschedThread s s.curthread else s)

/-- `sched_nice`. -/
def schedNice (s : State) (p : Pid) (nice : Int) : Option State :=
  let delta := (s.proc p).nice - nice
  let s := s.modProc p fun proc => { proc with nice := nice }
  (s.proc p).threads.foldlM (schedNiceThread delta) s

/-- `check_preempt_curr`. -/
def checkPreemptCurr (s : State) (t : Tid) : Option State :=
  let s := checkPriorityPreempt s t
  if (s.td s.curthread).cls = (s.td t).cls ∧ (s.td t).cls = .pss then pssCheckPreemptCurr s t else some s

/-- `pss_switched_to`. -/
def pssSwitchedTo (s : State) (t : Tid) : Option State :=
  if sleeping s t then some (addVtime s (s.ent (.thread t)).sfq (.thread t))
  else if s.curthread = t then some (reschedThread s t)
  else checkPreemptCurr s t

/-- `get_sched_class`. -/
def getSchedClass (s : State) (t : Tid) (priClass : PriClass) : SchedClass :=
  match priClass with
  | .ithd | .realtime | .fifo => .realtime
  | .timeshare => .pss
  | .idle => if (s.td t).idleTd then .idle else .pss

/-- `check_class_changed`; the realtime and idle classes have no hooks to speak of. -/
def checkClassChanged (s : State) (t : Tid) (prev : SchedClass) : Option State :=
  if prev = (s.td t).cls then some s
  else
    let s := if prev = .pss then pssSwitchedFrom s t else s
    if (s.td t).cls = .pss then pssSwitchedTo s t else some s

/-- `sched_class`. -/
def schedClass (s : State) (t : Tid) (priClass : PriClass) : Option State :=
  if (s.td t).tdPriClass = priClass then some s
  else do
    let prev := (s.td t).cls
    let cls := getSchedClass s t priClass
    let running := (s.td t).tdState = .running
    let onRq := (s.td t).tdState = .runq
    let s ← if onRq ∨ running then classDequeueThread prev s t 0 else some s
    let s ← if running then classPutPrevThread prev s t 0 else some s
    let s := s.modTd t fun td => { td with tdPriClass := priClass, cls := cls }
    let s ← if onRq ∨ running then classEnqueueThread cls s t 0 else some s
    let s ← if running then (classActivateThread cls s t).map fun s => setTdState s t .running else some s
    checkClassChanged s t prev

/-- `sched_add`. -/
def schedAdd (s : State) (t : Tid) : Option State := do
  let initial := (s.ent (.thread t)).initial
  let s := s.modEnt (.thread t) fun se => { se with initial := false }
  let s ← enqueueThread s t (if initial then 0 else enqueueWakeup)
  checkPreemptCurr s t

/-- `sched_group_move`. -/
def schedGroupMove (s : State) (t : Tid) (g : Gid) : Option State := do
  let onRq := (s.td t).tdState = .runq
  let running := (s.td t).tdState = .running
  let s ← if onRq ∨ running then dequeueThread s t 0 else some s
  let s ← if running then putPrevThread s t 0 else some s
  let s := s.modTd t fun td => { td with group := g }
  let s := if (s.td t).cls = .pss then pssSchedGroupMove s t (onRq ∨ running) else setThreadRq s t
  let s ← if onRq ∨ running then enqueueThread s t 0 else some s
  if running then (activateThread s t).map fun s => setTdState s t .running else some s

/-- The body of the loop of `sysctl_sched_group_move`. -/
def sysctlMoveThread (s : State) (t : Tid) (g : Gid) : Option State :=
  let old := (s.td t).group
  if old = g then some s
  else
    let s := s.modGrp old fun sg => { sg with threads := sg.threads.filter (· ≠ t) }
    let s := s.modGrp g fun sg => { sg with threads := sg.threads ++ [t] }
    schedGroupMove s t g

/-- The record `fork` makes for the child; its process is the parent's or a new one. -/
def forkThread (parent : Thread) (proc : Pid) : Thread :=
  { tdBasePri := parent.tdBasePri, tdPriority := parent.tdPriority, tdPriClass := parent.tdPriClass
    tdUserPri := parent.tdUserPri, tdBaseUserPri := parent.tdBaseUserPri, tdLendUserPri := 255, proc := proc }

/-- `sched_fork_thread` up to `set_thread_rq`. `stale` is what the memory of the
child's entity held before: only some of its fields are initialised. -/
def schedForkInit (s : State) (parent child : Tid) (stale : SchedEntity) : State :=
  let load := (s.ent (.thread parent)).load
  let s := s.modEnt (.thread child) fun _ =>
    { stale with
      onSfq := false, onRunq := false, joined := false, initial := true, load := load
      myQ := none }
  let ts := s.td parent
  let s := s.modTd child fun td => { td with cls := ts.cls, group := ts.group, tdPriority := td.tdBasePri }
  let s := s.modGrp ts.group fun sg => { sg with threads := sg.threads ++ [child] }
  setThreadRq s child

/-- `sched_fork_thread`. -/
def schedForkThread (s : State) (parent child : Tid) (stale : SchedEntity) : State :=
  let s := schedForkInit s parent child stale
  if (s.td parent).cls = .pss then pssForkThread s parent child
  else s.emit (.born child (s.ent (.thread child)).vruntime false)

/-- What the caller of `sched_fork_thread` does first: it allocates the thread
`s.nthreads`, and a process unless the child joins its parent's. -/
def forkAlloc (s : State) (parent : Tid) (newProc : Bool) : State :=
  let child := s.nthreads
  let old := (s.td parent).proc
  let pid := if newProc then s.nprocs else old
  let s := { s with nthreads := child + 1, nprocs := if newProc then s.nprocs + 1 else s.nprocs }
  let s := if newProc then s.modProc pid fun _ => { nice := (s.proc old).nice } else s
  let s := s.modProc pid fun p => { p with threads := p.threads ++ [child] }
  s.modTd child fun _ => forkThread (s.td parent) pid

/-- A fork of `parent`. -/
def fork (s : State) (parent : Tid) (newProc : Bool) (stale : SchedEntity) : State :=
  schedForkThread (forkAlloc s parent newProc) parent s.nthreads stale

/-- `sched_exit_thread`, which takes the thread off its group's list. -/
def schedExitThread (s : State) (t : Tid) : State :=
  s.modGrp (s.td t).group fun sg => { sg with threads := sg.threads.filter (· ≠ t) }

/-- `sched_tick`; the load average `update_cpu_load` keeps is a record of its own. -/
def schedTick (s : State) : State :=
  let t := s.curthread
  let s := updateRqClock s
  match (s.td t).cls with
  | .realtime => rtTick s t
  | .pss => pssTickThread s t
  | .idle => s

/-- `sched_thread_priority`; `idle_change_priority` does nothing. -/
def schedThreadPriority (s : State) (t : Tid) (prio : Nat) : Option State :=
  if (s.td t).tdPriority = prio then some s
  else
    match (s.td t).cls with
    | .realtime => rtChangePriority s t prio
    | .pss => pssChangePriority s t prio
    | .idle => some s

/-- `sched_lend_prio`. -/
def schedLendPrio (s : State) (t : Tid) (prio : Nat) : Option State :=
  schedThreadPriority (s.modTd t fun td => { td with borrowing := true }) t prio

/-- `sched_unlend_prio`, with the bounds of the timeshare range of `sys/priority.h`. -/
def schedUnlendPrio (s : State) (t : Tid) (prio : Nat) : Option State :=
  let td := s.td t
  let basePri := if puser ≤ td.tdBasePri ∧ td.tdBasePri ≤ 223 then td.tdUserPri else td.tdBasePri
  if basePri ≤ prio then
    schedThreadPriority (s.modTd t fun td => { td with borrowing := false }) t basePri
  else schedLendPrio s t prio

/-- `sched_prio`; the turnstile that may have to be told keeps its own order. -/
def schedPrio (s : State) (t : Tid) (prio : Nat) : Option State :=
  let s := s.modTd t fun td => { td with tdBasePri := prio }
  if (s.td t).borrowing ∧ (s.td t).tdPriority < prio then some s else schedThreadPriority s t prio

/-- `sched_user_prio`. -/
def schedUserPrio (s : State) (t : Tid) (prio : Nat) : State :=
  let s := s.modTd t fun td => { td with tdBaseUserPri := prio }
  if (s.td t).tdLendUserPri ≤ prio then s else s.modTd t fun td => { td with tdUserPri := prio }

/-- `sched_lend_user_prio`. -/
def schedLendUserPrio (s : State) (t : Tid) (prio : Nat) : Option State :=
  let s := s.modTd t fun td => { td with tdLendUserPri := prio, tdUserPri := min prio td.tdBaseUserPri }
  let td := s.td t
  if td.tdUserPri < td.tdPriority then schedPrio s t td.tdUserPri
  else if td.tdPriority ≠ td.tdUserPri then some (reschedThread s t)
  else some s

/-- `sched_userret`. -/
def schedUserret (s : State) (t : Tid) : Option State :=
  if (s.td t).borrowing then none
  else
    some (s.modTd t fun td =>
      if td.tdPriority ≠ td.tdUserPri then { td with tdPriority := td.tdUserPri, tdBasePri := td.tdUserPri } else td)

/-- `sched_group_create`. -/
def schedGroupCreate (s : State) (parent : Gid) (shares : Nat) : State :=
  let g := s.ngroups
  let s := { s with ngroups := g + 1 }
  let s := s.modGrp g fun _ => { parent := some parent }
  let s := pssAllocSchedGroup s g parent shares
  s.modGrp parent fun sg => { sg with children := sg.children ++ [g] }

section nice
variable {s s' : State} {t : Tid} {delta : Int}

/-- A round of the loop of `sched_nice` for a thread of `pss_class`, part by part. -/
theorem schedNiceThread_pss (pss : (s.td t).cls = .pss) : schedNiceThread delta s t =
    (if (s.td t).tdState = .runq ∨ (s.td t).tdState = .running then dequeueThread s t 0 else some s).bind fun a =>
      (if (s.td t).tdState = .running then putPrevThread a t 0 else some a).bind fun b =>
        (if (s.td t).tdState = .runq ∨ (s.td t).tdState = .running then enqueueThread (setThreadWeight b t) t 0
          else some (setThreadWeight b t)).bind fun c =>
          (if (s.td t).tdState = .running then (activateThread c t).map fun s => setTdState s t .running
            else some c).bind fun d =>
              some (if delta < 0 ∨ delta > 0 ∧ (s.td t).tdState = .running then reschedThread d d.curthread else d) := by
  unfold schedNiceThread
  rw [if_neg (not_not.mpr pss)]
  by_cases running : (s.td t).tdState = .running
  · simp only [running, or_true, if_true, and_true]
    rfl
  · by_cases queued : (s.td t).tdState = .runq
    · simp only [queued, reduceCtorEq, or_false, if_true, if_false, and_false, Option.bind_some]
      rfl
    · simp only [running, queued, or_false, if_false, and_false, Option.bind_some]
      rfl

theorem schedNiceThread_parts (pss : (s.td t).cls = .pss) (run : schedNiceThread delta s t = some s') :
    ∃ a b c d, (if (s.td t).tdState = .runq ∨ (s.td t).tdState = .running then dequeueThread s t 0 else some s) = some a ∧
      (if (s.td t).tdState = .running then putPrevThread a t 0 else some a) = some b ∧
      (if (s.td t).tdState = .runq ∨ (s.td t).tdState = .running then enqueueThread (setThreadWeight b t) t 0
        else some (setThreadWeight b t)) = some c ∧
      (if (s.td t).tdState = .running then (activateThread c t).map fun s => setTdState s t .running
        else some c) = some d ∧
      s' = if delta < 0 ∨ delta > 0 ∧ (s.td t).tdState = .running then reschedThread d d.curthread else d := by
  rw [schedNiceThread_pss pss] at run
  obtain ⟨a, deq, run⟩ := Option.bind_eq_some_iff.mp run
  obtain ⟨b, put, run⟩ := Option.bind_eq_some_iff.mp run
  obtain ⟨c, enq, run⟩ := Option.bind_eq_some_iff.mp run
  obtain ⟨d, act, done⟩ := Option.bind_eq_some_iff.mp run
  exact ⟨a, b, c, d, deq, put, enq, act, (Option.some.inj done).symm⟩

theorem schedNiceThread_of_parts {a b c d : State} (pss : (s.td t).cls = .pss)
    (deq : (if (s.td t).tdState = .runq ∨ (s.td t).tdState = .running then dequeueThread s t 0 else some s) = some a)
    (put : (if (s.td t).tdState = .running then putPrevThread a t 0 else some a) = some b)
    (enq : (if (s.td t).tdState = .runq ∨ (s.td t).tdState = .running then enqueueThread (setThreadWeight b t) t 0
      else some (setThreadWeight b t)) = some c)
    (act : (if (s.td t).tdState = .running then (activateThread c t).map fun s => setTdState s t .running
      else some c) = some d) :
    schedNiceThread delta s t =
      some (if delta < 0 ∨ delta > 0 ∧ (s.td t).tdState = .running then reschedThread d d.curthread else d) := by
  rw [schedNiceThread_pss pss, deq, Option.bind_some, put, Option.bind_some, enq, Option.bind_some, act, Option.bind_some]

end nice
end SfqSched
