import SfqSched.Load

namespace SfqSched
open State

/-- `se_to_td` under the test `entity_is_thread`. -/
def seToTd (s : State) (se : EntId) : Option Tid :=
  match se, (s.ent se).myQ with
  | .thread t, none => some t
  | _, _ => none

/-- `(int64_t)(a - b)`. -/
def sdiff (a b : BitVec 64) : Int := (a - b).toInt

/-- `vtime_cmp(a, b) < 0`, which is also `entity_before`. -/
def entityBefore (s : State) (a b : EntId) : Bool := sdiff (s.ent a).vruntime (s.ent b).vruntime < 0

def maxVruntime (v vruntime : BitVec 64) : BitVec 64 := if sdiff vruntime v > 0 then vruntime else v
def minVruntime (v vruntime : BitVec 64) : BitVec 64 := if sdiff vruntime v < 0 then vruntime else v

/-- `update_rq_clock`, with the next reading of `sched_time_cpu`. -/
def updateRqClock (s : State) : State :=
  let delta := s.kernel.schedTimeCpu s.reads - s.rq.clock
  { s with
    reads := s.reads + 1
    rq := { s.rq with clock := s.rq.clock + delta, clockThread := s.rq.clockThread + delta } }

/-- `sched_period`. -/
def schedPeriod (s : State) (nrRunning : Nat) : Nat :=
  if s.tun.schedNrLatency < nrRunning then s.tun.schedMinGranularity * nrRunning % 2 ^ 64
  else s.tun.schedLatency

/-- `account_entity_enqueue`. -/
def accountEntityEnqueue (s : State) (q : Gid) (se : EntId) : State :=
  let w := (s.ent se).load.weight
  let s := s.modSfq q fun sfq => { sfq with load := loadAdd sfq.load w }
  let s := if (s.ent se).parent = none then s.modRq fun rq => { rq with load := loadAdd rq.load w } else s
  s.modSfq q fun sfq => { sfq with nrRunning := sfq.nrRunning + 1 }

/-- `account_entity_dequeue`. -/
def accountEntityDequeue (s : State) (q : Gid) (se : EntId) : State :=
  let w := (s.ent se).load.weight
  let s := s.emit (.subtract (s.sfq q).load.weight w)
  let s := s.modSfq q fun sfq => { sfq with load := loadSub sfq.load w }
  let s :=
    if (s.ent se).parent = none then
      (s.emit (.subtract s.rq.load.weight w)).modRq fun rq => { rq with load := loadSub rq.load w }
    else s
  let s := s.emit (.subtract (s.sfq q).nrRunning 1)
  s.modSfq q fun sfq => { sfq with nrRunning := sfq.nrRunning - 1 }

/-- `update_sfq_vtime`; without `__LP64__` the copy `vtime_copy` follows. -/
def updateSfqVtime (s : State) (q : Gid) : State :=
  let sfq := s.sfq q
  let curr := sfq.curr.filter fun c => (s.ent c).joined
  match curr, sfq.leftmost with
  | some c, some l =>
    s.modSfq q fun sfq =>
      { sfq with vtime := maxVruntime sfq.vtime (minVruntime (s.ent c).vruntime (s.ent l).vruntime) }
  | some c, none => s.modSfq q fun sfq => { sfq with vtime := maxVruntime sfq.vtime (s.ent c).vruntime }
  | none, some l => s.modSfq q fun sfq => { sfq with vtime := maxVruntime sfq.vtime (s.ent l).vruntime }
  | none, none => s

/-- `scale_delta`; the inverse weight is cached in the entity's load. -/
def scaleDelta (s : State) (deltaExec : Nat) (se : EntId) : Nat × State :=
  if (s.ent se).load.weight = nice0Weight then (deltaExec, s)
  else
    let (r, lw) := scaleByWeight deltaExec nice0Weight (s.ent se).load
    (r, s.modEnt se fun ent => { ent with load := lw })

/-- One round of the loop of `sched_slice`. -/
def schedSliceLevel (slice : Nat) (s : State) (se : EntId) : Nat × State :=
  let q := (s.ent se).sfq
  if (s.ent se).joined then
    let (slice, lw) := scaleByWeight slice (s.ent se).load.weight (s.sfq q).load
    (slice, s.modSfq q fun sfq => { sfq with load := lw })
  else
    ((scaleByWeight slice (s.ent se).load.weight (loadAdd (s.sfq q).load (s.ent se).load.weight)).1, s)

/-- `sched_slice`. -/
def schedSlice (s : State) (q : Gid) (se : EntId) : Nat × State :=
  (walkup s (some se)).foldl (fun acc se => schedSliceLevel acc.1 acc.2 se)
    (schedPeriod s (s.sfq q).nrRunning, s)

/-- `sched_vslice`. -/
def schedVslice (s : State) (q : Gid) (se : EntId) : Nat × State :=
  let (slice, s) := schedSlice s q se
  scaleDelta s slice se

/-- `place_entity` with `initial` set. -/
def placeEntityInitial (s : State) (q : Gid) (se : EntId) : State :=
  let vtime := (s.sfq q).vtime
  if s.tun.startDebit then
    let (vslice, s) := schedVslice s q se
    s.modEnt se fun ent => { ent with vruntime := maxVruntime ent.vruntime (vtime + BitVec.ofNat 64 vslice) }
  else s.modEnt se fun ent => { ent with vruntime := maxVruntime ent.vruntime vtime }

/-- `thresh` of `place_entity`: how far behind the queue a sleeper may come back. -/
def wakeThresh (s : State) : Nat :=
  if s.tun.gentleSleeper then s.tun.schedMinGranularity >>> 1 else s.tun.schedMinGranularity

/-- `place_entity` with `initial` clear. -/
def placeEntity (s : State) (q : Gid) (se : EntId) : State :=
  let v := maxVruntime (s.ent se).vruntime ((s.sfq q).vtime - BitVec.ofNat 64 (wakeThresh s))
  (s.modEnt se fun ent => { ent with vruntime := v }).emit (.place se v)

/-- `se->vruntime += sfq->vtime`. -/
def addVtime (s : State) (q : Gid) (se : EntId) : State :=
  let vtime := (s.sfq q).vtime
  (s.modEnt se fun ent => { ent with vruntime := ent.vruntime + vtime }).emit (.addVtime se q vtime)

/-- `se->vruntime -= sfq->vtime`. -/
def subVtime (s : State) (q : Gid) (se : EntId) : State :=
  let vtime := (s.sfq q).vtime
  (s.modEnt se fun ent => { ent with vruntime := ent.vruntime - vtime }).emit (.subVtime se q vtime)

/-- The part of `update_curr` that restores the user priority of a timeshare thread. -/
def resetUserPri (s : State) (curr : EntId) : State :=
  match seToTd s curr with
  | some t =>
    if (s.td t).tdPriClass = .timeshare ∧ (s.td t).tdUserPri ≠ normalPri then
      s.modTd t fun td => { td with tdUserPri := normalPri }
    else s
  | none => s

/-- The part of `update_curr` that charges `deltaExec` to the current entity. -/
def chargeEntity (s : State) (q : Gid) (curr : EntId) (deltaExec now : BitVec 64) : State :=
  let s := s.modEnt curr fun ent => { ent with sumExecTime := ent.sumExecTime + deltaExec }
  let (weighted, s) := scaleDelta s deltaExec.toNat curr
  let s := s.modEnt curr fun ent =>
    { ent with vruntime := ent.vruntime + BitVec.ofNat 64 weighted, timingStart := now }
  updateSfqVtime (s.emit (.charge q curr deltaExec weighted now)) q

/-- `update_curr`. -/
def updateCurr (s : State) (q : Gid) : State :=
  match (s.sfq q).curr with
  | none => s
  | some curr =>
    let s := resetUserPri s curr
    let now := s.rq.clockThread
    let deltaExec := now - (s.ent curr).timingStart
    if deltaExec = 0 then s else chargeEntity s q curr deltaExec now

/-- `update_entity_weight`. -/
def updateEntityWeight (s : State) (q : Gid) (se : EntId) (weight : Nat) : State :=
  if (s.ent se).joined then
    let s := if (s.sfq q).curr = some se then updateCurr s q else s
    let s := accountEntityDequeue s q se
    let s := s.modEnt se fun ent => { ent with load := loadSet weight }
    accountEntityEnqueue s q se
  else s.modEnt se fun ent => { ent with load := loadSet weight }

/-- `update_sfq_shares`; without `SMP`, `calc_sfq_shares` is `sg->shares`. -/
def updateSfqShares (s : State) (q : Gid) : State :=
  let sg := s.grp (s.sfq q).group
  match sg.se with
  | none => s
  | some se =>
    if (s.ent se).load.weight = sg.shares then s
    else updateEntityWeight s (s.ent se).sfq se sg.shares

/-- `SWT_PREEMPT`, `SWT_RELINQUISH` and `SW_TYPE_MASK` of `sys/proc.h`. -/
def swtPreempt : Nat := 1
def swtRelinquish : Nat := 6
def swTypeMask : Nat := 0xff

def dequeueSleep : Nat := 1
def enqueueHead : Nat := 1
def enqueueWakeup : Nat := 2

/-- `runq_add`: one list stands for the 64 queues; at the head of its own queue
a thread is before all others of its index, at the tail behind them. -/
def runqAdd (s : State) (t : Tid) (preempted : Bool) : State :=
  let entry := { index := (s.td t).tdPriority / 4, tid := t }
  s.modRq fun rq =>
    { rq with realtime := if preempted then entry :: rq.realtime else rq.realtime ++ [entry] }

/-- `runq_remove`. -/
def runqRemove (s : State) (t : Tid) : State :=
  s.modRq fun rq => { rq with realtime := rq.realtime.filter fun entry => entry.tid ≠ t }

/-- `runq_choose`: the head of the first queue that is not empty. -/
def runqChoose (realtime : List RunqEntry) : Option Tid :=
  (realtime.foldl (fun best entry =>
    match best with
    | none => some entry
    | some b => if entry.index < b.index then some entry else best) none).map RunqEntry.tid

/-- `__runq_enqueue`. -/
def rawRunqEnqueue (s : State) (t : Tid) (flags : Nat) : Option State :=
  if (s.ent (.thread t)).onRunq then none
  else some ((runqAdd s t (flags &&& swtPreempt ≠ 0)).modEnt (.thread t) fun se => { se with onRunq := true })

/-- `__runq_dequeue`. -/
def rawRunqDequeue (s : State) (t : Tid) : State :=
  if (s.ent (.thread t)).onRunq then
    (runqRemove s t).modEnt (.thread t) fun se => { se with onRunq := false }
  else s

/-- The vruntimes of the entities on `q` when `se` is inserted. -/
def presentVruntimes (s : State) (q : Gid) (se : EntId) : List (BitVec 64) :=
  ((se :: (s.sfq q).seq) ++ ((s.sfq q).curr.filter fun c => (s.ent c).joined).toList).map
    fun e => (s.ent e).vruntime

/-- `__enqueue_entity`. -/
def rawEnqueueEntity (s : State) (q : Gid) (se : EntId) : Option State :=
  if (s.ent se).onSfq then none
  else
    let tree := (s.sfq q).timeline
    let first := tree.leftmostPath (entityBefore s) se
    let s := s.emit (.insert q se (presentVruntimes s q se))
    let s := s.modSfq q fun sfq =>
      { sfq with
        timeline := s.kernel.insertColor (tree.insertLeaf (entityBefore s) true se) se
        leftmost := if first then some se else sfq.leftmost }
    some (s.modEnt se fun ent => { ent with onSfq := true })

/-- `TIMELINE_RB_NEXT`. -/
def rbNext (seq : List EntId) (se : EntId) : Option EntId :=
  match seq with
  | [] => none
  | e :: rest => if e = se then rest.head? else rbNext rest se

/-- `__dequeue_entity`. -/
def rawDequeueEntity (s : State) (q : Gid) (se : EntId) : Option State :=
  if (s.ent se).onSfq then
    let s := s.modSfq q fun sfq =>
      { sfq with
        leftmost := if sfq.leftmost = some se then rbNext sfq.seq se else sfq.leftmost
        timeline := s.kernel.remove sfq.timeline se }
    some (s.modEnt se fun ent => { ent with onSfq := false })
  else none

/-- `add_leaf_sfq`. -/
def addLeafSfq (s : State) (q : Gid) : State :=
  if (s.sfq q).onLeafList then s
  else
    let s :=
      match (s.grp (s.sfq q).group).parent with
      | some p =>
        let parentSfq := (s.grp p).sfq
        if (s.sfq parentSfq).onLeafList then
          s.modRq fun rq =>
            { rq with leafSfqList := rq.leafSfqList.flatMap fun x => if x = parentSfq then [q, x] else [x] }
        else s.modRq fun rq => { rq with leafSfqList := rq.leafSfqList ++ [q] }
      | none => s.modRq fun rq => { rq with leafSfqList := rq.leafSfqList ++ [q] }
    s.modSfq q fun sfq => { sfq with onLeafList := true }

end SfqSched
