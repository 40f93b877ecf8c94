import SfqSched.SearchTree
import SfqSched.Climb
import Mathlib.Logic.Function.Basic

namespace SfqSched

abbrev Tid := Nat
abbrev Pid := Nat

/-- A `struct sched_group *`, numbered in order of allocation; `0` is
`root_sched_group`. On a uniprocessor every group owns one `struct sfq`,
so the same number names the group's queue, and `0` names `rq->sfq`. -/
abbrev Gid := Nat

/-- A `struct sched_entity *`: the entity inside a thread or `sg->se[0]`. -/
inductive EntId
  | thread (t : Tid)
  | group (g : Gid)
  deriving DecidableEq, Repr

/-- `td_pri_class`: `PRI_ITHD`, `PRI_REALTIME`, `PRI_FIFO`, `PRI_TIMESHARE`, `PRI_IDLE`. -/
inductive PriClass
  | ithd | realtime | fifo | timeshare | idle
  deriving DecidableEq, Repr

/-- The three `struct sched_class` objects, in the order of `FOREACH_CLASS`. -/
inductive SchedClass
  | realtime | pss | idle
  deriving DecidableEq, Repr

/-- `td_state`. A sleeping, suspended or locked thread is `inhibited`. -/
inductive TdState
  | inactive | inhibited | canRun | runq | running
  deriving DecidableEq, Repr

/-- `struct load_weight`. -/
structure LoadWeight where
  weight : Nat := 0
  invWeight : Nat := 0
  deriving DecidableEq, Repr

/-- `struct sched_entity`; the two `SEF_*` bits of `flags` are separate fields. -/
structure SchedEntity where
  onSfq : Bool := false
  onRunq : Bool := false
  vruntime : BitVec 64 := 0
  timingStart : BitVec 64 := 0
  sumExecTime : BitVec 64 := 0
  prevSumExecTime : BitVec 64 := 0
  initial : Bool := false
  joined : Bool := false
  load : LoadWeight := {}
  parent : Option EntId := none
  sfq : Gid := 0
  myQ : Option Gid := none

/-- The `RB_HEAD(TIMELINE)` tree; the decoration is the node's colour. -/
abbrev Timeline := SearchTree Bool EntId

/-- `struct sfq`. -/
structure Sfq where
  timeline : Timeline := .leaf
  leftmost : Option EntId := none
  curr : Option EntId := none
  skip : Option EntId := none
  next : Option EntId := none
  last : Option EntId := none
  vtime : BitVec 64 := 0
  nrRunning : Nat := 0
  load : LoadWeight := {}
  group : Gid := 0
  onLeafList : Bool := false

/-- `struct sched_group`. -/
structure SchedGroup where
  se : Option EntId := none
  sfq : Gid := 0
  shares : Nat := 0
  parent : Option Gid := none
  children : List Gid := []
  threads : List Tid := []

/-- The fields of `struct thread` and `struct td_sched` the scheduler uses;
the entity itself is found under `EntId.thread`. `exited` marks a thread
whose `sched_throw` is over and whose memory is gone. -/
structure Thread where
  tdState : TdState := .inactive
  tdPriority : Nat := 0
  tdBasePri : Nat := 0
  tdUserPri : Nat := 0
  tdBaseUserPri : Nat := 0
  tdLendUserPri : Nat := 0
  tdPriClass : PriClass := .timeshare
  needResched : Bool := false
  owePreempt : Bool := false
  borrowing : Bool := false
  noLoad : Bool := false
  idleTd : Bool := false
  proc : Pid := 0
  cls : SchedClass := .pss
  group : Gid := 0
  exited : Bool := false

/-- `struct proc`: the nice value and the threads in `FOREACH_THREAD_IN_PROC` order. -/
structure Proc where
  nice : Int := 0
  threads : List Tid := []

/-- A thread on the realtime `struct runq` with its `td_rqindex`. -/
structure RunqEntry where
  index : Nat
  tid : Tid
  deriving DecidableEq, Repr

/-- `struct rq`. `rq->sfq` is queue `0`. -/
structure Rq where
  nrRunning : Nat := 0
  nrSysrunning : Nat := 0
  realtime : List RunqEntry := []
  rtCurr : Option EntId := none
  load : LoadWeight := {}
  clock : BitVec 64 := 0
  clockThread : BitVec 64 := 0
  leafSfqList : List Gid := []

/-- The sysctl variables, and the slice constants `sched_initticks` derives from `hz`. -/
structure Tunables where
  schedLatency : Nat := 6000000
  schedMinGranularity : Nat := 750000
  schedNrLatency : Nat := 8
  wakeupGranularity : Nat := 650000
  gentleSleeper : Bool := false
  startDebit : Bool := true
  childRunsFirst : Bool := false
  schedLast : Bool := true
  schedSlice : Nat := 100
  schedSliceMin : Nat := 20
  tickNs : Nat := 1000000

/-- What the scheduler calls and this model leaves open. `RB_INSERT_COLOR` and
`RB_REMOVE` of `tree.h` recolour and rotate in any way that keeps the in-order
sequence; the n-th call of `sched_time_cpu` may return anything. -/
structure Kernel where
  insertColor : Timeline → EntId → Timeline
  insertColor_seq : ∀ t e, (insertColor t e).seq = t.seq
  remove : Timeline → EntId → Timeline
  remove_seq : ∀ t e, (remove t e).seq = t.seq.erase e
  schedTimeCpu : Nat → BitVec 64

/-- What happens to vruntimes, memberships and the CPU, written down as it
happens. The scheduler never reads these records. -/
inductive Event
  /-- `update_curr` charges the current entity: real time, weighted time, clock. -/
  | charge (q : Gid) (e : EntId) (exec : BitVec 64) (weighted : Nat) (clock : BitVec 64)
  /-- `place_entity` stores a vruntime. -/
  | place (e : EntId) (v : BitVec 64)
  /-- `se->vruntime += sfq->vtime`. -/
  | addVtime (e : EntId) (q : Gid) (vtime : BitVec 64)
  /-- `se->vruntime -= sfq->vtime`. -/
  | subVtime (e : EntId) (q : Gid) (vtime : BitVec 64)
  /-- `sched_fork_thread` is over; `relative` if the hook was `pss_fork_thread`. -/
  | born (t : Tid) (v : BitVec 64) (relative : Bool)
  /-- `child_runs_first` hands the parent the vruntime of its child, which is `gain` higher. -/
  | swap (e : EntId) (gain : BitVec 64)
  /-- An insertion into a timeline, with the vruntimes of all entities then on the queue. -/
  | insert (q : Gid) (e : EntId) (present : List (BitVec 64))
  | join (q : Gid) (e : EntId)
  | leave (q : Gid) (e : EntId)
  /-- `sched_choose` starts. -/
  | choose
  /-- `pick_next_entity`: the timeline, its leftmost entity, that entity's `wakeup_gran`, the result. -/
  | pick (q : Gid) (timeline : List EntId) (first : EntId) (gran : Nat) (e : EntId)
  | activate (q : Gid) (e : EntId) (clock : BitVec 64)
  | release (q : Gid) (e : EntId) (clock : BitVec 64)
  /-- `pss_activate_thread` is over; the chain with each `sum_exec_time`. -/
  | dispatched (t : Tid) (chain : List (EntId × BitVec 64)) (clock : BitVec 64)
  /-- `pss_put_prev_thread` is over; the chain with each `sum_exec_time`. -/
  | released (t : Tid) (chain : List (EntId × BitVec 64)) (clock : BitVec 64)
  /-- A subtraction from a load weight or a thread count. -/
  | subtract (minuend subtrahend : Nat)

/-- The memory of the scheduler. Newest records come first in `journal`. -/
structure State where
  kernel : Kernel
  tun : Tunables := {}
  ent : EntId → SchedEntity := fun _ => {}
  sfq : Gid → Sfq := fun _ => {}
  grp : Gid → SchedGroup := fun _ => {}
  td : Tid → Thread := fun _ => {}
  proc : Pid → Proc := fun _ => {}
  rq : Rq := {}
  reads : Nat := 0
  curthread : Tid := 0
  idlethread : Tid := 1
  ngroups : Nat := 1
  nthreads : Nat := 0
  nprocs : Nat := 0
  journal : List Event := []

namespace State

def modEnt (s : State) (e : EntId) (f : SchedEntity → SchedEntity) : State :=
  { s with ent := Function.update s.ent e (f (s.ent e)) }

def modSfq (s : State) (q : Gid) (f : Sfq → Sfq) : State :=
  { s with sfq := Function.update s.sfq q (f (s.sfq q)) }

def modGrp (s : State) (g : Gid) (f : SchedGroup → SchedGroup) : State :=
  { s with grp := Function.update s.grp g (f (s.grp g)) }

def modTd (s : State) (t : Tid) (f : Thread → Thread) : State :=
  { s with td := Function.update s.td t (f (s.td t)) }

def modProc (s : State) (p : Pid) (f : Proc → Proc) : State :=
  { s with proc := Function.update s.proc p (f (s.proc p)) }

def modRq (s : State) (f : Rq → Rq) : State := { s with rq := f s.rq }

def emit (s : State) (ev : Event) : State := { s with journal := ev :: s.journal }

end State

/-- The in-order sequence of a queue's timeline. -/
def Sfq.seq (q : Sfq) : List EntId := q.timeline.seq

/-- The entities `WALKUP_SCHED_ENTITY(se)` visits: `se`, its parent, and so on.
No loop body writes a parent pointer, and a parent is an older group than
its child, so fuel beyond the number of groups is never used up. -/
def walkup (s : State) (se : Option EntId) : List EntId :=
  climb (fun e => (s.ent e).parent) (s.ngroups + 1) se

end SfqSched
