import SfqSched.ChoiceFrame
import SfqSched.Seat

namespace SfqSched
open State Function

/-- What a seat does not show. -/
def Seat.blind : Cell → Bool
  | .nthreads | .curthread | .myQ | .joined | .onSfq | .onRunq | .tdState | .priority | .cls | .realtime => false
  | _ => true

/-- A function that writes only what a seat does not show keeps all seats. -/
theorem Cover.Within.seat {w : Cell → Bool} {s s' : State} (h : Changes w s s') (blind : w ≤ Seat.blind) :
    s'.seat = s.seat := (h.mono blind).read State.seat fun _ => rfl

/-- A seat shows no time. -/
theorem timing_seat : timing ≤ Seat.blind := fun c => by cases c <;> decide
theorem charging_seat : charging ≤ Seat.blind := fun c => by cases c <;> decide

/-- Nor a weight. -/
theorem weighing_seat : weighing ≤ Seat.blind := fun c => by cases c <;> decide

/-- Nor a candidate. -/
theorem marking_seat : marking ≤ Seat.blind := fun c => by cases c <;> decide

/-- To pick an entity is not yet to seat it. -/
theorem picking_seat : picking ≤ Seat.blind := fun c => by cases c <;> decide

/-- To ask for the CPU is not yet to have it. -/
theorem preempting_seat : preempting ≤ Seat.blind := fun c => by cases c <;> decide
theorem asking_seat : asking ≤ Seat.blind := fun c => by cases c <;> decide
theorem listing_seat : listing ≤ Seat.blind := fun c => by cases c <;> decide

section
variable (s : State) (q : Gid) (e : EntId) (t : Tid)

@[simp] theorem updateSfqVtime_seat : (updateSfqVtime s q).seat = s.seat := (updateSfqVtime_changes s q).seat timing_seat

@[simp] theorem placeEntityInitial_seat : (placeEntityInitial s q e).seat = s.seat :=
  ((placeEntityInitial_changes s q e).mono spending_charging).seat charging_seat

@[simp] theorem placeEntity_seat : (placeEntity s q e).seat = s.seat := (placeEntity_changes s q e).seat timing_seat
@[simp] theorem addVtime_seat : (addVtime s q e).seat = s.seat := (addVtime_changes s q e).seat timing_seat
@[simp] theorem subVtime_seat : (subVtime s q e).seat = s.seat := (subVtime_changes s q e).seat timing_seat

/-- `update_curr` may give back a lent user priority, which is not the priority a seat shows. -/
@[simp] theorem updateCurr_seat : (updateCurr s q).seat = s.seat := (updateCurr_changes s q).seat charging_seat

/-- Whether an entity is joined is stored by its callers, not by the accounts. -/
@[simp] theorem accountEntityEnqueue_seat : (accountEntityEnqueue s q e).seat = s.seat :=
  ((accountEntityEnqueue_changes s q e).mono accounting_weighing).seat weighing_seat

@[simp] theorem accountEntityDequeue_seat : (accountEntityDequeue s q e).seat = s.seat :=
  ((accountEntityDequeue_changes s q e).mono accounting_weighing).seat weighing_seat

/-- The weights of the groups above a thread are not in its seat. -/
@[simp] theorem updateSfqShares_seat : (updateSfqShares s q).seat = s.seat := (updateSfqShares_changes s q).seat weighing_seat
@[simp] theorem addLeafSfq_seat : (addLeafSfq s q).seat = s.seat := (addLeafSfq_changes s q).seat listing_seat
@[simp] theorem reschedThread_seat : (reschedThread s t).seat = s.seat := (reschedThread_changes s t).seat asking_seat

@[simp] theorem setSkipWalk_seat (chain : List EntId) : (setSkipWalk s chain).seat = s.seat :=
  (setSkipWalk_changes s chain).seat marking_seat

@[simp] theorem setNextCandidate_seat : (setNextCandidate s e).seat = s.seat :=
  (setNextCandidate_changes s e).seat marking_seat

@[simp] theorem clearCandidates_seat : (clearCandidates s q e).seat = s.seat :=
  (clearCandidates_changes s e q).seat marking_seat

/-- The state of a thread is in its own seat. -/
theorem setTdState_seat (st : TdState) :
    (setTdState s t st).seat = update s.seat t { s.seat t with tdState := st } := seat_modTd ..

/-- The priority of a thread is in its own seat. -/
theorem setTdPriority_seat (prio : Nat) : (s.modTd t fun td => { td with tdPriority := prio }).seat =
    update s.seat t { s.seat t with priority := prio } := seat_modTd ..

/-- An entity that owns no queue is a thread's. -/
theorem seToTd_leaf (leaf : (s.seat t).myQ = none) : seToTd s (.thread t) = some t := by
  have leaf' : (s.ent (.thread t)).myQ = none := leaf
  simp [seToTd, leaf']

theorem seToTd_group' (g : Gid) : seToTd s (.group g) = none := by
  unfold seToTd
  split
  · rename_i same _
    cases same
  · rfl

end

/-- `TD_SET_RUNQ` and, for a boosted thread, a place on the realtime queue. -/
def Seat.Queued (x y : Seat) : Prop :=
  ∃ head, y = if x.priority < normalPri then { x.boosted head with tdState := .runq } else { x with tdState := .runq }

section entities
variable {s s' : State} {q : Gid} {e : EntId} {t : Tid} {flags : Nat}

/-- `set_runq` seats a thread on the realtime queue if its priority is boosted, and not otherwise. -/
theorem setRunq_seat (leaf : (s.seat t).myQ = none) (run : setRunq s (.thread t) flags = some s') :
    ∃ y, (s.seat t).Queued y ∧ s'.seat = update s.seat t y := by
  unfold setRunq at run
  rw [seToTd_leaf s t leaf] at run
  dsimp only at run
  have first := setTdState_seat s t .runq
  have priority : ((setTdState s t .runq).td t).tdPriority = (s.seat t).priority := by
    simp [setTdState, State.modTd, State.seat]
  rw [priority] at run
  split at run
  · rename_i urgent
    obtain ⟨_, head, look⟩ := rawRunqEnqueue_seat _ _ run
    rw [first, update_self] at look
    refine ⟨_, ⟨head, (if_pos urgent).symm⟩, ?_⟩
    rw [look, update_idem]
    rfl
  · rename_i calm
    cases run
    exact ⟨_, ⟨false, (if_neg calm).symm⟩, first⟩

/-- A group is never on the realtime queue. -/
theorem setRunq_seat_group {g : Gid} (run : setRunq s (.group g) flags = some s') : s'.seat = s.seat := by
  unfold setRunq at run
  rw [seToTd_group'] at run
  cases run
  rfl

/-- The thread was not in a timeline, and now is; the other seats stay. -/
theorem rawEnqueueEntity_seat (run : rawEnqueueEntity s q (.thread t) = some s') :
    (s.seat t).onSfq = false ∧ s'.seat = update s.seat t { s.seat t with onSfq := true } := by
  unfold rawEnqueueEntity at run
  split at run
  · cases run
  · rename_i off
    cases run
    exact ⟨by simpa [State.seat] using off, seat_modEnt ..⟩

/-- A group has no seat. -/
theorem rawEnqueueEntity_seat_group {g : Gid} (run : rawEnqueueEntity s q (.group g) = some s') : s'.seat = s.seat := by
  unfold rawEnqueueEntity at run
  split at run
  · cases run
  · cases run
    exact seat_modEnt_group ..

/-- The thread was in a timeline, and no longer is; the other seats stay. -/
theorem rawDequeueEntity_seat (run : rawDequeueEntity s q (.thread t) = some s') :
    (s.seat t).onSfq = true ∧ s'.seat = update s.seat t { s.seat t with onSfq := false } := by
  unfold rawDequeueEntity at run
  split at run
  · rename_i there
    cases run
    exact ⟨there, seat_modEnt ..⟩
  · cases run

theorem rawDequeueEntity_seat_group {g : Gid} (run : rawDequeueEntity s q (.group g) = some s') : s'.seat = s.seat := by
  unfold rawDequeueEntity at run
  split at run
  · cases run
    exact seat_modEnt_group ..
  · cases run

end entities
end SfqSched
