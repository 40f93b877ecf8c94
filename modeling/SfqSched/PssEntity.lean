import SfqSched.Entity

namespace SfqSched
open State

def setTdState (s : State) (t : Tid) (st : TdState) : State := s.modTd t fun td => { td with tdState := st }

/-- `resched_thread`. -/
def reschedThread (s : State) (t : Tid) : State := s.modTd t fun td => { td with needResched := true }

/-- The three entity pointers of a `struct sfq` that bias `pick_next_entity`. -/
inductive Candidate
  | skip | next | last
  deriving DecidableEq, Repr

def Sfq.candidate (sfq : Sfq) : Candidate → Option EntId
  | .skip => sfq.skip
  | .next => sfq.next
  | .last => sfq.last

def Sfq.setCandidate (sfq : Sfq) (c : Candidate) (se : Option EntId) : Sfq :=
  match c with
  | .skip => { sfq with skip := se }
  | .next => { sfq with next := se }
  | .last => { sfq with last := se }

/-- The loop of `set_skip_candidate`, which stops at a queue with other entities. -/
def setSkipWalk (s : State) : List EntId → State
  | [] => s
  | se :: rest =>
    let q := (s.ent se).sfq
    let s' := s.modSfq q fun sfq => sfq.setCandidate .skip (some se)
    if (s.sfq q).nrRunning > 1 then s' else setSkipWalk s' rest

def setSkipCandidate (s : State) (se : EntId) : State := setSkipWalk s (walkup s (some se))

/-- The loop of `set_next_candidate` and `set_last_candidate`. -/
def setCandidateWalk (c : Candidate) (s : State) : List EntId → State
  | [] => s
  | se :: rest =>
    setCandidateWalk c (s.modSfq (s.ent se).sfq fun sfq => sfq.setCandidate c (some se)) rest

/-- The loop of `clear_skip_candidate`, `clear_next_candidate` and `clear_last_candidate`. -/
def clearCandidateWalk (c : Candidate) (s : State) : List EntId → State
  | [] => s
  | se :: rest =>
    let q := (s.ent se).sfq
    if (s.sfq q).candidate c = some se then
      clearCandidateWalk c (s.modSfq q fun sfq => sfq.setCandidate c none) rest
    else s

/-- Whether the entity is a thread of class `PRI_IDLE`, which is never made a candidate. -/
def idleThreadEntity (s : State) (se : EntId) : Bool :=
  match seToTd s se with
  | some t => (s.td t).tdPriClass = .idle
  | none => false

def setNextCandidate (s : State) (se : EntId) : State :=
  if idleThreadEntity s se then s else setCandidateWalk .next s (walkup s (some se))

def setLastCandidate (s : State) (se : EntId) : State :=
  if idleThreadEntity s se then s else setCandidateWalk .last s (walkup s (some se))

def clearSkipCandidate (s : State) (se : EntId) : State := clearCandidateWalk .skip s (walkup s (some se))
def clearNextCandidate (s : State) (se : EntId) : State := clearCandidateWalk .next s (walkup s (some se))
def clearLastCandidate (s : State) (se : EntId) : State := clearCandidateWalk .last s (walkup s (some se))

/-- `clear_candidates`. -/
def clearCandidates (s : State) (q : Gid) (se : EntId) : State :=
  let s := if (s.sfq q).skip = some se then clearSkipCandidate s se else s
  let s := if (s.sfq q).next = some se then clearNextCandidate s se else s
  if (s.sfq q).last = some se then clearLastCandidate s se else s

/-- What `put_prev_entity` and `enqueue_entity` do for the entity of a thread:
`TD_SET_RUNQ`, and a place on the realtime queue for a boosted thread. -/
def setRunq (s : State) (se : EntId) (flags : Nat) : Option State :=
  match seToTd s se with
  | some t =>
    let s := setTdState s t .runq
    if (s.td t).tdPriority < normalPri then rawRunqEnqueue s t flags else some s
  | none => some s

/-- `put_prev_entity`. -/
def putPrevEntity (s : State) (q : Gid) (se : EntId) (flags : Nat) : Option State := do
  let s ←
    if (s.ent se).joined then do
      let s :=
        if (seToTd s se).isSome ∧ flags &&& swTypeMask = swtRelinquish then setSkipCandidate s se else s
      let s := updateCurr s q
      let s ← setRunq s se flags
      rawEnqueueEntity s q se
    else some s
  some ((s.emit (.release q se s.rq.clockThread)).modSfq q fun sfq => { sfq with curr := none })

/-- `wakeup_gran`: the wakeup granularity weighed for the entity to be overtaken. -/
def wakeupGran (s : State) (newSe : EntId) : Nat × State := scaleDelta s s.tun.wakeupGranularity newSe

/-- `wakeup_preempt_entity`. -/
def wakeupPreemptEntity (s : State) (curr se : EntId) : Int × State :=
  let diff := sdiff (s.ent curr).vruntime (s.ent se).vruntime
  if diff > 0 then
    let (gran, s) := wakeupGran s se
    if diff > (BitVec.ofNat 64 gran).toInt then (1, s) else (0, s)
  else (-1, s)

/-- One `if` of `pick_next_entity`: `candidate` replaces `se` unless `first` is far ahead of it. -/
def preferCandidate (candidate : Option EntId) (first : EntId) (acc : EntId × State) : EntId × State :=
  match candidate with
  | some c =>
    let (r, s) := wakeupPreemptEntity acc.2 c first
    (if r < 1 then c else acc.1, s)
  | none => acc

/-- `pick_next_entity`. An empty timeline makes it follow a null pointer. -/
def pickNextEntity (s : State) (q : Gid) : Option (EntId × State) :=
  match (s.sfq q).leftmost with
  | none => none
  | some first =>
    let second := if (s.sfq q).skip = some first then rbNext (s.sfq q).seq first else none
    let acc := preferCandidate second first (first, s)
    let acc := preferCandidate (s.sfq q).last first acc
    let acc := preferCandidate (s.sfq q).next first acc
    let (se, s) := acc
    let s := s.emit (.pick q (s.sfq q).seq first (wakeupGran s first).1 se)
    some (se, clearCandidates s q se)

/-- The descent of `pss_pick_next_thread`; each level is a younger group. -/
def pssPickFrom (s : State) : Nat → Gid → Option (EntId × State)
  | 0, _ => none
  | fuel + 1, q =>
    match pickNextEntity s q with
    | none => none
    | some (se, s) =>
      match (s.ent se).myQ with
      | none => some (se, s)
      | some q => pssPickFrom s fuel q

/-- `activate_entity`. -/
def activateEntity (s : State) (q : Gid) (se : EntId) : Option State :=
  if (s.ent se).joined then do
    let s := match seToTd s se with
      | some t => rawRunqDequeue s t
      | none => s
    let s ← rawDequeueEntity s q se
    if (s.sfq q).curr = none then
      let clock := s.rq.clockThread
      let s := (s.emit (.activate q se clock)).modSfq q fun sfq => { sfq with curr := some se }
      some (s.modEnt se fun ent =>
        { ent with timingStart := clock, prevSumExecTime := ent.sumExecTime })
    else none
  else none

/-- `enqueue_entity`. -/
def enqueueEntity (s : State) (q : Gid) (se : EntId) (flags : Nat) : Option State :=
  if (s.ent se).joined then none
  else do
    let s := if flags &&& enqueueWakeup = 0 then addVtime s q se else s
    let s := updateCurr s q
    let s := if flags &&& enqueueWakeup ≠ 0 then placeEntity s q se else s
    let s ← setRunq s se flags
    let s ← rawEnqueueEntity s q se
    let s := accountEntityEnqueue s q se
    let s := updateSfqShares s q
    let s := if (s.sfq q).nrRunning = 1 then addLeafSfq s q else s
    some ((s.emit (.join q se)).modEnt se fun ent => { ent with joined := true })

/-- `dequeue_entity`. -/
def dequeueEntity (s : State) (q : Gid) (se : EntId) (flags : Nat) : Option State :=
  if (s.ent se).joined then do
    let s := updateCurr s q
    let s := match seToTd s se with
      | some t => rawRunqDequeue s t
      | none => s
    let s := clearCandidates s q se
    let s ← if (s.ent se).onSfq then rawDequeueEntity s q se else some s
    let s := accountEntityDequeue s q se
    let s := (s.emit (.leave q se)).modEnt se fun ent => { ent with joined := false }
    let s := if flags &&& dequeueSleep = 0 then subVtime s q se else s
    some (updateSfqShares (updateSfqVtime s q) q)
  else if (s.ent se).onRunq ∨ (s.ent se).onSfq then none
  else some s

end SfqSched
