import SfqSched.PssEntity

namespace SfqSched
open State

/-- `rq_run_add`. -/
def rqRunAdd (s : State) (t : Tid) : State :=
  let s := s.modRq fun rq => { rq with nrRunning := rq.nrRunning + 1 }
  if (s.td t).noLoad then s else s.modRq fun rq => { rq with nrSysrunning := rq.nrSysrunning + 1 }

/-- `rq_run_rem`. -/
def rqRunRem (s : State) (t : Tid) : Option State :=
  if s.rq.nrRunning = 0 then none
  else
    let s := (s.emit (.subtract s.rq.nrRunning 1)).modRq fun rq => { rq with nrRunning := rq.nrRunning - 1 }
    some (if (s.td t).noLoad then s
      else (s.emit (.subtract s.rq.nrSysrunning 1)).modRq fun rq =>
        { rq with nrSysrunning := rq.nrSysrunning - 1 })

/-- `check_priority_preempt`; the kernel is neither cold nor panicking. -/
def checkPriorityPreempt (s : State) (t : Tid) : State :=
  let ctd := s.curthread
  let pri := (s.td t).tdPriority
  if (s.td ctd).tdPriority ≤ pri then s
  else
    let s := reschedThread s ctd
    if (s.td ctd).tdState = .inhibited ∨ (s.td ctd).idleTd then s
    else if pri ≤ priMinKern then s.modTd ctd fun td => { td with needResched := true, owePreempt := true }
    else s

/-- `WALKUP_SCHED_ENTITY(se) update_sfq_shares(se_to_sfq(se))`. -/
def updateSharesWalk (s : State) (chain : List EntId) : State :=
  chain.foldl (fun s se => updateSfqShares s (s.ent se).sfq) s

/-- The two loops of `pss_enqueue_thread` over the rest of the chain. -/
def pssEnqueueWalk (s : State) : List EntId → Nat → Option State
  | [], _ => some s
  | se :: rest, flags =>
    if (s.ent se).joined then some (updateSharesWalk s (se :: rest))
    else
      match enqueueEntity s (s.ent se).sfq se flags with
      | none => none
      | some s => pssEnqueueWalk s rest enqueueWakeup

def pssEnqueueThread (s : State) (t : Tid) (flags : Nat) : Option State :=
  (pssEnqueueWalk s (walkup s (some (.thread t))) flags).map fun s => rqRunAdd s t

/-- The two loops of `pss_dequeue_thread` over the rest of the chain. -/
def pssDequeueWalk (isSleep : Bool) (s : State) : List EntId → Nat → Option State
  | [], _ => some s
  | se :: rest, flags =>
    let q := (s.ent se).sfq
    match dequeueEntity s q se flags with
    | none => none
    | some s =>
      if (s.sfq q).load.weight ≠ 0 then
        let s := match isSleep, (s.ent se).parent with
          | true, some p => setNextCandidate s p
          | _, _ => s
        some (updateSharesWalk s rest)
      else pssDequeueWalk isSleep s rest (flags ||| dequeueSleep)

def pssDequeueThread (s : State) (t : Tid) (flags : Nat) : Option State :=
  (pssDequeueWalk (flags &&& dequeueSleep ≠ 0) s (walkup s (some (.thread t))) flags).bind fun s => rqRunRem s t

/-- The loop of `pss_put_prev_thread`. -/
def pssPutPrevWalk (s : State) : List EntId → Nat → Option State
  | [], _ => some s
  | se :: rest, flags =>
    match putPrevEntity s (s.ent se).sfq se flags with
    | none => none
    | some s => pssPutPrevWalk s rest flags

/-- A chain with the `sum_exec_time` of its entities. -/
def execTimes (s : State) (chain : List EntId) : List (EntId × BitVec 64) :=
  chain.map fun se => (se, (s.ent se).sumExecTime)

def pssPutPrevThread (s : State) (t : Tid) (flags : Nat) : Option State :=
  let chain := walkup s (some (.thread t))
  (pssPutPrevWalk s chain flags).map fun s => s.emit (.released t (execTimes s chain) s.rq.clockThread)

/-- The loop of `pss_activate_thread`. -/
def pssActivateWalk (s : State) : List EntId → Option State
  | [] => some s
  | se :: rest =>
    match activateEntity s (s.ent se).sfq se with
    | none => none
    | some s => pssActivateWalk s rest

def pssActivateThread (s : State) (t : Tid) : Option State :=
  let chain := walkup s (some (.thread t))
  (pssActivateWalk s chain).map fun s =>
    (setTdState s t .running).emit (.dispatched t (execTimes s chain) s.rq.clockThread)

/-- `pss_pick_next_thread`; the inner `none` is its `NULL`. A thread whose
memory was freed cannot be returned. -/
def pssPickNextThread (s : State) : Option (Option Tid × State) :=
  if (s.sfq 0).nrRunning = 0 then some (none, s)
  else
    (pssPickFrom s (s.ngroups + 1) 0).bind fun (se, s) =>
      match seToTd s se with
      | some t => if (s.td t).exited then none else some (some t, s)
      | none => none

/-- `pss_change_priority`. -/
def pssChangePriority (s : State) (t : Tid) (prio : Nat) : Option State :=
  if (s.td t).tdState = .runq ∧ prio < (s.td t).tdPriority then do
    let s := rawRunqDequeue s t
    let s := s.modTd t fun td => { td with tdPriority := prio }
    let s ← if prio < normalPri then rawRunqEnqueue s t 0 else some s
    some (checkPriorityPreempt s t)
  else some (s.modTd t fun td => { td with tdPriority := prio })

/-- The last loop of `find_common_ancestor`: both chains climb in step. -/
def climbTogether (s : State) : List EntId → List EntId → Option (EntId × EntId)
  | a :: as, b :: bs => if (s.ent a).sfq = (s.ent b).sfq then some (a, b) else climbTogether s as bs
  | _, _ => none

/-- `find_common_ancestor`; `entity_depth` is the length of a chain. -/
def findCommonAncestor (s : State) (a b : EntId) : Option (EntId × EntId) :=
  let chainA := walkup s (some a)
  let chainB := walkup s (some b)
  climbTogether s (chainA.drop (chainA.length - chainB.length)) (chainB.drop (chainB.length - chainA.length))

/-- The end of `pss_check_preempt_curr`, from the label `preempt`. -/
def preemptCurr (s : State) (ctd : Tid) (se : EntId) (scale : Bool) : State :=
  let s := reschedThread s ctd
  if s.tun.schedLast ∧ scale ∧ (seToTd s se).isSome then setLastCandidate s se else s

/-- `pss_check_preempt_curr`. -/
def pssCheckPreemptCurr (s : State) (t : Tid) : Option State :=
  let ctd := s.curthread
  if (s.td ctd).needResched then some s
  else
    let scale := s.tun.schedNrLatency ≤ (s.sfq (s.ent (.thread ctd)).sfq).nrRunning
    if (s.td ctd).tdPriClass = .idle ∧ (s.td t).tdPriClass ≠ .idle then
      some (preemptCurr s ctd (.thread t) scale)
    else
      (findCommonAncestor s (.thread ctd) (.thread t)).map fun (curr, se) =>
        let s := updateCurr s (s.ent curr).sfq
        let (r, s) := wakeupPreemptEntity s curr se
        if r > 0 then preemptCurr (setNextCandidate s se) ctd se scale else s

/-- `check_preempt_tick`. -/
def checkPreemptTick (s : State) (q : Gid) (se : EntId) : State :=
  let (idealSlice, s) := schedSlice s q se
  let deltaExec := ((s.ent se).sumExecTime - (s.ent se).prevSumExecTime).toNat
  if idealSlice < deltaExec then reschedThread (clearCandidates s q se) s.curthread
  else if deltaExec < s.tun.schedMinGranularity then s
  else
    match (s.sfq q).leftmost with
    | none => s
    | some leftmost =>
      let delta := sdiff (s.ent se).vruntime (s.ent leftmost).vruntime
      if 0 < delta ∧ (BitVec.ofNat 64 idealSlice).toInt < delta then reschedThread s s.curthread else s

/-- `entity_tick`. -/
def entityTick (s : State) (se : EntId) : State :=
  let q := (s.ent se).sfq
  let s := updateCurr s q
  if (s.sfq q).nrRunning > 1 then checkPreemptTick s q se else s

/-- `pss_tick_thread`. -/
def pssTickThread (s : State) (t : Tid) : State :=
  (walkup s (some (.thread t))).foldl entityTick s

/-- Whether `pss_fork_thread` takes the branch of `child_runs_first`, on the
state in which the child has been placed. -/
def forkSwaps (s : State) (parent child : Tid) : Bool :=
  s.tun.childRunsFirst && entityBefore s (.thread parent) (.thread child)

/-- The first half of `pss_fork_thread`: the child gets its parent's vruntime and is placed. -/
def pssForkPlace (s : State) (parent child : Tid) : State :=
  let q := (s.ent (.thread parent)).sfq
  let s := updateRqClock s
  let s := updateCurr s q
  let s := s.modEnt (.thread child) fun se2 => { se2 with vruntime := (s.ent (.thread parent)).vruntime }
  placeEntityInitial s q (.thread child)

/-- The exchange of `child_runs_first`. -/
def pssForkSwap (s : State) (parent child : Tid) : State :=
  let v := (s.ent (.thread parent)).vruntime
  let v2 := (s.ent (.thread child)).vruntime
  let s := (s.modEnt (.thread parent) fun se => { se with vruntime := v2 }).emit (.swap (.thread parent) (v2 - v))
  let s := s.modEnt (.thread child) fun se2 => { se2 with vruntime := v }
  reschedThread s parent

/-- `pss_fork_thread`. -/
def pssForkThread (s : State) (parent child : Tid) : State :=
  let q := (s.ent (.thread parent)).sfq
  let s := pssForkPlace s parent child
  let s := if forkSwaps s parent child then pssForkSwap s parent child else s
  let v := (s.ent (.thread child)).vruntime - (s.sfq q).vtime
  (s.modEnt (.thread child) fun se2 => { se2 with vruntime := v }).emit (.born child v true)

/-- The test of the two `switched` hooks: neither new, queued nor running. -/
def sleeping (s : State) (t : Tid) : Bool :=
  !(s.ent (.thread t)).initial && (s.td t).tdState ≠ .runq && (s.td t).tdState ≠ .running

/-- `pss_switched_from`. -/
def pssSwitchedFrom (s : State) (t : Tid) : State :=
  let q := (s.ent (.thread t)).sfq
  if sleeping s t then subVtime (placeEntity s q (.thread t)) q (.thread t) else s

/-- `set_thread_rq`. -/
def setThreadRq (s : State) (t : Tid) : State :=
  let tg := s.grp (s.td t).group
  s.modEnt (.thread t) fun se => { se with sfq := tg.sfq, parent := tg.se }

/-- `pss_sched_group_move`. -/
def pssSchedGroupMove (s : State) (t : Tid) (onRq : Bool) : State :=
  let adjust := !(s.ent (.thread t)).initial && !onRq
  let s := if adjust then subVtime s (s.ent (.thread t)).sfq (.thread t) else s
  let s := setThreadRq s t
  if adjust then addVtime s (s.ent (.thread t)).sfq (.thread t) else s

def minShares : Nat := 2
def maxShares : Nat := 2 ^ 18

/-- The bounds both share functions put on a request that is not `0`. -/
def clampShares (shares : Nat) : Nat :=
  if shares < minShares then minShares else if maxShares < shares then maxShares else shares

/-- The store of `pss_alloc_sched_group`. -/
def allocShares (shares : Nat) : Nat := if shares = 0 then nice0Weight else clampShares shares

def einval : Int := 22

/-- `pss_sched_group_set_shares`. -/
def pssSchedGroupSetShares (s : State) (g : Gid) (shares : Nat) : Int × State :=
  match (s.grp g).se with
  | none => (einval, s)
  | some se =>
    let s := if shares = 0 then s.modGrp g fun sg => { sg with shares := nice0Weight } else s
    let shares := if shares = 0 then shares else clampShares shares
    if shares = (s.grp g).shares then (0, s)
    else
      let s := s.modGrp g fun sg => { sg with shares := shares }
      (0, updateSharesWalk s (walkup s (some se)))

/-- `pss_alloc_sched_group` and `pss_init_group` for the new group `g`. -/
def pssAllocSchedGroup (s : State) (g parent : Gid) (shares : Nat) : State :=
  let parentSe := (s.grp parent).se
  let s := s.modGrp g fun sg => { sg with shares := allocShares shares, sfq := g, se := some (.group g) }
  let s := s.modSfq g fun _ => { group := g }
  let upper := match parentSe with
    | none => 0
    | some p => ((s.ent p).myQ).getD 0
  s.modEnt (.group g) fun _ => { sfq := upper, myQ := some g, parent := parentSe, load := loadSet 0 }

end SfqSched
