import SfqSched.UserPriSched

namespace SfqSched
open State Function

/-- What the two run queues show of one thread; `slots` are its places on `rq->realtime`,
`onCpu` tells whether it is `curthread` and `born` whether it was created. -/
@[ext]
structure Seat where
  tdState : TdState
  cls : SchedClass
  priority : Nat
  myQ : Option Gid
  joined : Bool
  onSfq : Bool
  onRunq : Bool
  slots : List Nat
  onCpu : Bool
  born : Bool

def State.seat (s : State) (t : Tid) : Seat where
  tdState := (s.td t).tdState
  cls := (s.td t).cls
  priority := (s.td t).tdPriority
  myQ := (s.ent (.thread t)).myQ
  joined := (s.ent (.thread t)).joined
  onSfq := (s.ent (.thread t)).onSfq
  onRunq := (s.ent (.thread t)).onRunq
  slots := (s.rq.realtime.filter fun entry => entry.tid = t).map RunqEntry.index
  onCpu := s.curthread == t
  born := Nat.blt t s.nthreads

section updates
variable (s : State)

/-- A seat is about a thread and its entity, so that queues, groups and processes are none. -/
@[simp] theorem seat_modSfq (q : Gid) (f : Sfq → Sfq) : (s.modSfq q f).seat = s.seat := rfl
@[simp] theorem seat_modGrp (g : Gid) (f : SchedGroup → SchedGroup) : (s.modGrp g f).seat = s.seat := rfl
@[simp] theorem seat_modProc (p : Pid) (f : Proc → Proc) : (s.modProc p f).seat = s.seat := rfl
@[simp] theorem seat_emit (ev : Event) : (s.emit ev).seat = s.seat := rfl
@[simp] theorem updateRqClock_seat : (updateRqClock s).seat = s.seat := rfl

/-- A store to a group's entity touches no seat. -/
@[simp] theorem seat_modEnt_group (g : Gid) (f : SchedEntity → SchedEntity) :
    (s.modEnt (.group g) f).seat = s.seat := by
  funext u
  simp [State.seat, State.modEnt]

/-- A store to a thread's entity is in that thread's seat. -/
theorem seat_modEnt (t : Tid) (f : SchedEntity → SchedEntity) :
    (s.modEnt (.thread t) f).seat = update s.seat t
      { s.seat t with
        myQ := (f (s.ent (.thread t))).myQ
        joined := (f (s.ent (.thread t))).joined
        onSfq := (f (s.ent (.thread t))).onSfq
        onRunq := (f (s.ent (.thread t))).onRunq } := by
  funext u
  by_cases same : u = t
  · subst same
    simp [State.seat, State.modEnt]
  · simp [State.seat, State.modEnt, same]

theorem seat_setJoined (t : Tid) (b : Bool) : (s.modEnt (.thread t) fun ent => { ent with joined := b }).seat =
    update s.seat t { s.seat t with joined := b } := seat_modEnt ..

theorem seat_setOnRunq (t : Tid) (b : Bool) (f : SchedEntity → SchedEntity)
    (same : ∀ ent, (f ent).myQ = ent.myQ ∧ (f ent).joined = ent.joined ∧ (f ent).onSfq = ent.onSfq ∧ (f ent).onRunq = b) :
    (s.modEnt (.thread t) f).seat = update s.seat t { s.seat t with onRunq := b } := by
  obtain ⟨myQ, joined, onSfq, onRunq⟩ := same (s.ent (.thread t))
  rw [seat_modEnt, myQ, joined, onSfq, onRunq]
  rfl

/-- A store to another field of an entity. -/
theorem seat_modEnt_keeps {e : EntId} {f : SchedEntity → SchedEntity}
    (keeps : (f (s.ent e)).myQ = (s.ent e).myQ ∧ (f (s.ent e)).joined = (s.ent e).joined ∧
      (f (s.ent e)).onSfq = (s.ent e).onSfq ∧ (f (s.ent e)).onRunq = (s.ent e).onRunq) :
    (s.modEnt e f).seat = s.seat := by
  cases e with
  | group g => exact seat_modEnt_group ..
  | thread t =>
    obtain ⟨myQ, joined, onSfq, onRunq⟩ := keeps
    rw [seat_modEnt, myQ, joined, onSfq, onRunq]
    exact update_eq_self ..

/-- A store to a thread is in its own seat. -/
theorem seat_modTd (t : Tid) (f : Thread → Thread) :
    (s.modTd t f).seat = update s.seat t
      { s.seat t with
        tdState := (f (s.td t)).tdState
        cls := (f (s.td t)).cls
        priority := (f (s.td t)).tdPriority } := by
  funext u
  by_cases same : u = t
  · subst same
    simp [State.seat, State.modTd]
  · simp [State.seat, State.modTd, same]

theorem seat_setState (t : Tid) (st : TdState) (f : Thread → Thread)
    (same : ∀ td, (f td).tdState = st ∧ (f td).cls = td.cls ∧ (f td).tdPriority = td.tdPriority) :
    (s.modTd t f).seat = update s.seat t { s.seat t with tdState := st } := by
  obtain ⟨tdState, cls, priority⟩ := same (s.td t)
  rw [seat_modTd, tdState, cls, priority]
  rfl

/-- A store to another field of a thread. -/
theorem seat_modTd_keeps {t : Tid} {f : Thread → Thread}
    (keeps : (f (s.td t)).tdState = (s.td t).tdState ∧ (f (s.td t)).cls = (s.td t).cls ∧
      (f (s.td t)).tdPriority = (s.td t).tdPriority) : (s.modTd t f).seat = s.seat := by
  obtain ⟨tdState, cls, priority⟩ := keeps
  rw [seat_modTd, tdState, cls, priority]
  exact update_eq_self ..

/-- Of the CPU a seat shows the realtime queue. -/
theorem seat_modRq_keeps {f : Rq → Rq} (keeps : (f s.rq).realtime = s.rq.realtime) : (s.modRq f).seat = s.seat := by
  funext u
  simp [State.seat, State.modRq, keeps]

end updates

/-- `runq_add` for a thread that is on no slot. -/
def Seat.added (x : Seat) (head : Bool) : Seat :=
  { x with slots := if head then x.priority / 4 :: x.slots else x.slots ++ [x.priority / 4] }

def Seat.boosted (x : Seat) (head : Bool) : Seat := { x.added head with onRunq := true }

/-- `__runq_dequeue`. -/
def Seat.unboosted (x : Seat) : Seat := if x.onRunq then { x with onRunq := false, slots := [] } else x

section realtime
variable (s : State) (t : Tid)

/-- The thread has one more slot in the realtime queue. -/
theorem runqAdd_seat (head : Bool) : (runqAdd s t head).seat = update s.seat t ((s.seat t).added head) := by
  funext u
  by_cases same : u = t
  · subst same
    cases head <;> simp [State.seat, runqAdd, State.modRq, Seat.added]
  · cases head <;> simp [State.seat, runqAdd, State.modRq, same, Ne.symm same]

/-- The thread has no slot in the realtime queue. -/
theorem runqRemove_seat : (runqRemove s t).seat = update s.seat t { s.seat t with slots := [] } := by
  funext u
  by_cases same : u = t
  · subst same
    simp [State.seat, runqRemove, State.modRq, List.filter_filter]
  · have others (entry : RunqEntry) : (decide (entry.tid = u) && !decide (entry.tid = t)) = decide (entry.tid = u) := by
      by_cases here : entry.tid = u
      · simp [here, same]
      · simp [here]
    simp [State.seat, runqRemove, State.modRq, same, List.filter_filter, others]

/-- A boosted thread has a slot and the flag for it. -/
theorem rawRunqEnqueue_seat {flags : Nat} {s' : State} (run : rawRunqEnqueue s t flags = some s') :
    (s.seat t).onRunq = false ∧ ∃ head, s'.seat = update s.seat t ((s.seat t).boosted head) := by
  unfold rawRunqEnqueue at run
  split at run
  · cases run
  · rename_i off
    cases run
    refine ⟨by simpa [State.seat] using off, decide (flags &&& swtPreempt ≠ 0), ?_⟩
    have other := congrFun (runqAdd_seat s t (decide (flags &&& swtPreempt ≠ 0))) t
    rw [update_self] at other
    rw [seat_modEnt, runqAdd_seat, update_idem, update_self]
    rfl

theorem rawRunqDequeue_seat : (rawRunqDequeue s t).seat = update s.seat t (s.seat t).unboosted := by
  unfold rawRunqDequeue
  by_cases queued : (s.ent (.thread t)).onRunq = true
  · have queued' : (s.seat t).onRunq = true := queued
    rw [if_pos queued, seat_modEnt, runqRemove_seat, update_idem, update_self, Seat.unboosted, if_pos queued']
    rfl
  · rw [if_neg queued, Seat.unboosted, if_neg (show ¬(s.seat t).onRunq = true from queued), update_eq_self]

end realtime
end SfqSched
