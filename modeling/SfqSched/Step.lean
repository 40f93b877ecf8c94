import SfqSched.Sched

namespace SfqSched
open State

/-- The sysctl variables of the `kern.sched` node that a running system may write. -/
inductive Sysctl
  | wakeupGranularity (v : BitVec 64)
  | gentleSleeper (v : Bool)
  | startDebit (v : Bool)
  | childRunsFirst (v : Bool)
  | schedLast (v : Bool)
  | schedLatency (v : BitVec 64)
  | schedMinGranularity (v : BitVec 64)

/-- The `int val` of the two handlers, as the `unsigned long` it is compared and stored as. -/
def intVal (v : BitVec 64) : Nat := ((v.truncate 32).signExtend 64).toNat

/-- `(sched_latency + sched_min_granularity - 1) / sched_min_granularity`, as an `unsigned int`. -/
def nrLatency (latency minGranularity : Nat) : Nat :=
  (latency + minGranularity + 2 ^ 64 - 1) % 2 ^ 64 / minGranularity % 2 ^ 32

/-- `sysctl_sched_latency`. -/
def sysctlSchedLatency (tun : Tunables) (v : BitVec 64) : Option Tunables :=
  let val := intVal v
  if val < tun.schedMinGranularity then some tun
  else if tun.schedMinGranularity = 0 then none
  else some { tun with schedLatency := val, schedNrLatency := nrLatency val tun.schedMinGranularity }

/-- `sysctl_sched_min_granularity`. -/
def sysctlSchedMinGranularity (tun : Tunables) (v : BitVec 64) : Option Tunables :=
  let val := intVal v
  if tun.schedLatency < val then some tun
  else if val = 0 then none
  else some { tun with schedMinGranularity := val, schedNrLatency := nrLatency tun.schedLatency val }

def sysctlWrite (tun : Tunables) : Sysctl → Option Tunables
  | .wakeupGranularity v => some { tun with wakeupGranularity := v.toNat }
  | .gentleSleeper v => some { tun with gentleSleeper := v }
  | .startDebit v => some { tun with startDebit := v }
  | .childRunsFirst v => some { tun with childRunsFirst := v }
  | .schedLast v => some { tun with schedLast := v }
  | .schedLatency v => sysctlSchedLatency tun v
  | .schedMinGranularity v => sysctlSchedMinGranularity tun v

/-- An operation the rest of the kernel performs on the scheduler. -/
inductive Op
  /-- `sched_add`, also through `sched_wakeup`. -/
  | add (t : Tid)
  /-- `sched_switch` of the running thread: a preemption or a yield, by its flags. -/
  | switch (flags : Nat)
  /-- `sched_switch` of the current thread after it was put on a sleep queue. -/
  | sleep (flags : Nat)
  | throw
  | schedClass (t : Tid) (priClass : PriClass)
  | nice (p : Pid) (nice : Int)
  | groupMove (t : Tid) (g : Gid)
  | fork (parent : Tid) (newProc : Bool) (stale : SchedEntity)
  | exitThread (t : Tid)
  | tick
  | prio (t : Tid) (prio : Nat)
  | lendPrio (t : Tid) (prio : Nat)
  | unlendPrio (t : Tid) (prio : Nat)
  | userPrio (t : Tid) (prio : Nat)
  | lendUserPrio (t : Tid) (prio : Nat)
  | userret
  | setShares (g : Gid) (shares : Nat)
  | groupCreate (parent : Gid) (shares : Nat)
  | sysctl (write : Sysctl)

/-- A thread that was created and has not exited. -/
def State.live (s : State) (t : Tid) : Bool := t < s.nthreads && !(s.td t).exited

/-- What the callers of the scheduler see to: threads exist, a thread that is
added is neither queued nor running, and the idle thread neither sleeps nor forks. -/
def Op.enabled (s : State) : Op → Bool
  | .add t => s.live t && t ≠ s.idlethread && (s.td t).tdState ≠ .runq && (s.td t).tdState ≠ .running
  | .sleep _ | .throw => !(s.td s.curthread).idleTd
  | .schedClass t _ | .exitThread t => s.live t
  | .fork t _ _ => s.live t && !(s.td t).idleTd
  | .prio t p | .lendPrio t p | .unlendPrio t p | .userPrio t p | .lendUserPrio t p => s.live t && p < 256
  | .nice p n => p < s.nprocs && prioMin ≤ n && n ≤ prioMax
  | .groupMove t g => s.live t && g < s.ngroups
  | .setShares g _ | .groupCreate g _ => g < s.ngroups
  | .switch _ | .tick | .userret | .sysctl _ => true

def Op.exec (s : State) : Op → Option State
  | .add t => schedAdd (setTdState s t .canRun) t
  | .switch flags => schedSwitch s s.curthread flags
  | .sleep flags => schedSwitch (setTdState s s.curthread .inhibited) s.curthread flags
  | .throw => schedThrow s s.curthread
  | .schedClass t priClass => SfqSched.schedClass s t priClass
  | .nice p n => schedNice s p n
  | .groupMove t g => sysctlMoveThread s t g
  | .fork t newProc stale => some (SfqSched.fork s t newProc stale)
  | .exitThread t => some (schedExitThread s t)
  | .tick => some (schedTick s)
  | .prio t p => schedPrio s t p
  | .lendPrio t p => schedLendPrio s t p
  | .unlendPrio t p => schedUnlendPrio s t p
  | .userPrio t p => some (schedUserPrio s t p)
  | .lendUserPrio t p => schedLendUserPrio s t p
  | .userret => schedUserret s s.curthread
  | .setShares g shares => some (pssSchedGroupSetShares s g shares).2
  | .groupCreate parent shares => some (schedGroupCreate s parent shares)
  | .sysctl write => (sysctlWrite s.tun write).map fun tun => { s with tun := tun }

/-- One completed operation; `none` if it may not be called or panics. -/
def step (s : State) (op : Op) : Option State := if op.enabled s then op.exec s else none

/-- Memory as `sched_setup` finds it: thread `0` is starting, thread `1` is the idle thread. -/
def bootMemory (k : Kernel) (tun : Tunables) : State where
  kernel := k
  tun := tun
  ent := fun e =>
    if e = .thread 1 then { initial := true, load := threadLoad 0 .timeshare } else {}
  grp := fun g => if g = 0 then { threads := [0, 1] } else {}
  td := fun t =>
    if t = 0 then
      { tdState := .canRun, tdPriority := 84, tdBasePri := 84, tdUserPri := normalPri
        tdBaseUserPri := normalPri, tdLendUserPri := 255, proc := 0 }
    else if t = 1 then
      { tdState := .canRun, tdPriority := 255, tdBasePri := 255, tdUserPri := 255
        tdBaseUserPri := 255, tdLendUserPri := 255, tdPriClass := .idle, cls := .idle
        idleTd := true, noLoad := true, proc := 1 }
    else {}
  proc := fun p => if p = 0 then { threads := [0] } else if p = 1 then { threads := [1] } else {}
  rq := { clock := k.schedTimeCpu 0 }
  reads := 1
  nthreads := 2
  nprocs := 2

/-- The end of `sched_setup`, which starts thread `0`. -/
def schedSetup (k : Kernel) (tun : Tunables) : Option State := do
  let s := setThreadRq (setThreadWeight (bootMemory k tun) 0) 0
  let s ← enqueueThread s 0 0
  activateThread s 0

/-- The operations of a run, one after the other. -/
def runFrom (s : State) (ops : List Op) : Option State := ops.foldlM step s

def run (k : Kernel) (tun : Tunables) (ops : List Op) : Option State :=
  (schedSetup k tun).bind fun s => runFrom s ops

/-- A tree that has only right children. -/
def spine : List EntId → Timeline
  | [] => .leaf
  | e :: rest => .node true .leaf e (spine rest)

theorem spine_seq (l : List EntId) : (spine l).seq = l := by
  induction l with
  | nil => rfl
  | cons e rest ih => simp [spine, ih]

/-- A machine whose clock shows a microsecond more at every reading. -/
def plainKernel : Kernel where
  insertColor t _ := t
  insertColor_seq _ _ := rfl
  remove t e := spine (t.seq.erase e)
  remove_seq _ _ := spine_seq _
  schedTimeCpu n := BitVec.ofNat 64 (n * 1000)

end SfqSched
