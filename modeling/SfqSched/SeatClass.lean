import SfqSched.SeatEntity

namespace SfqSched
open State Function

/-- `update_curr` and the accounts aside, `enqueue_entity` on the entity of a thread. -/
def Seat.Enters (x y : Seat) : Prop :=
  x.joined = false ∧ x.onSfq = false ∧ ∃ z, x.Queued z ∧ y = { z with onSfq := true, joined := true }

/-- `dequeue_entity` on the entity of a thread. -/
def Seat.Leaves (x y : Seat) : Prop :=
  x.joined ∧ y = { x.unboosted with onSfq := false, joined := false } ∨
    x.joined = false ∧ x.onSfq = false ∧ x.onRunq = false ∧ y = x

/-- `put_prev_entity` on the entity of a thread. -/
def Seat.PutBack (x y : Seat) : Prop :=
  x.joined ∧ x.onSfq = false ∧ (∃ z, x.Queued z ∧ y = { z with onSfq := true }) ∨ x.joined = false ∧ y = x

/-- `enqueue_thread` of the thread's class. -/
def Seat.Enqueued (x y : Seat) : Prop :=
  match x.cls with
  | .realtime => x.joined = false ∧ x.onRunq = false ∧ x.onSfq = false ∧
      ∃ head, y = { x.boosted head with tdState := .runq, joined := true }
  | .pss => x.Enters y ∨ x.joined ∧ y = x
  | .idle => y = x

/-- `dequeue_thread` of the thread's class. -/
def Seat.Dequeued (x y : Seat) : Prop :=
  match x.cls with
  | .realtime => x.joined ∧ x.onSfq = false ∧ y = { x.unboosted with joined := false } ∨ x.joined = false ∧ y = x
  | .pss => x.Leaves y
  | .idle => y = x

/-- `put_prev_thread` of the thread's class. -/
def Seat.Released (x y : Seat) : Prop :=
  match x.cls with
  | .realtime =>
    x.joined ∧ x.onRunq = false ∧ (∃ head, y = { x.boosted head with tdState := .runq }) ∨ x.joined = false ∧ y = x
  | .pss => x.PutBack y
  | .idle => y = { x with tdState := .canRun }

/-- `activate_thread` of the thread's class. -/
def Seat.Activated (x y : Seat) : Prop :=
  match x.cls with
  | .realtime => x.joined ∧ x.onRunq ∧ x.onSfq = false ∧ y = { x with onRunq := false, slots := [], tdState := .running }
  | .pss => x.joined ∧ x.onSfq ∧ y = { x.unboosted with onSfq := false, tdState := .running }
  | .idle => y = { x with tdState := .running }

section entities
variable {s s' : State} {q : Gid} {e : EntId} {t : Tid} {flags : Nat}

theorem enqueueEntity_seat (leaf : (s.seat t).myQ = none) (run : enqueueEntity s q (.thread t) flags = some s') :
    ∃ y, (s.seat t).Enters y ∧ s'.seat = update s.seat t y := by
  unfold enqueueEntity at run
  split at run
  · cases run
  · rename_i apart
    obtain ⟨a, first, run⟩ := Option.bind_eq_some_iff.mp run
    obtain ⟨b, second, run⟩ := Option.bind_eq_some_iff.mp run
    cases run
    have add (s : State) : (if flags &&& enqueueWakeup = 0 then addVtime s q (.thread t) else s).seat = s.seat := by
      split
      · exact addVtime_seat ..
      · rfl
    have place (s : State) : (if flags &&& enqueueWakeup ≠ 0 then placeEntity s q (.thread t) else s).seat = s.seat := by
      split
      · exact placeEntity_seat ..
      · rfl
    have before : ∀ a b c : State, a.seat = s.seat → b.seat = a.seat → c.seat = b.seat → c.seat = s.seat :=
      fun a b c h h' h'' => h''.trans (h'.trans h)
    have same := before _ _ _ (add s) (updateCurr_seat _ q) (place _)
    obtain ⟨z, queued, look⟩ := setRunq_seat (by rw [same]; exact leaf) first
    rw [same] at queued look
    obtain ⟨off, look'⟩ := rawEnqueueEntity_seat second
    rw [look, update_self] at off look'
    rw [update_idem] at look'
    have stays : z.onSfq = (s.seat t).onSfq := by
      obtain ⟨head, rfl⟩ := queued
      split <;> rfl
    have leafSfq (s : State) (here : Prop) [Decidable here] : (if here then addLeafSfq s q else s).seat = s.seat := by
      split
      · exact addLeafSfq_seat ..
      · rfl
    refine ⟨{ z with onSfq := true, joined := true },
      ⟨by simpa [State.seat] using apart, stays ▸ off, z, queued, rfl⟩, ?_⟩
    have counted (here : Prop) [Decidable here] :
        (if here then addLeafSfq (updateSfqShares (accountEntityEnqueue b q (.thread t)) q) q
        else updateSfqShares (accountEntityEnqueue b q (.thread t)) q).seat = b.seat :=
      (leafSfq ..).trans ((updateSfqShares_seat ..).trans (accountEntityEnqueue_seat ..))
    refine (seat_setJoined ..).trans ?_
    simp only [seat_emit, counted, look', update_idem, update_self]

theorem enqueueEntity_seat_group {g : Gid} (run : enqueueEntity s q (.group g) flags = some s') : s'.seat = s.seat := by
  unfold enqueueEntity at run
  split at run
  · cases run
  · obtain ⟨a, first, run⟩ := Option.bind_eq_some_iff.mp run
    obtain ⟨b, second, run⟩ := Option.bind_eq_some_iff.mp run
    cases run
    have add (s : State) : (if flags &&& enqueueWakeup = 0 then addVtime s q (.group g) else s).seat = s.seat := by
      split
      · exact addVtime_seat ..
      · rfl
    have place (s : State) : (if flags &&& enqueueWakeup ≠ 0 then placeEntity s q (.group g) else s).seat = s.seat := by
      split
      · exact placeEntity_seat ..
      · rfl
    have leafSfq (s : State) (here : Prop) [Decidable here] : (if here then addLeafSfq s q else s).seat = s.seat := by
      split
      · exact addLeafSfq_seat ..
      · rfl
    refine (seat_modEnt_group ..).trans ((seat_emit ..).trans ((leafSfq ..).trans ?_))
    refine (updateSfqShares_seat ..).trans ((accountEntityEnqueue_seat ..).trans ?_)
    refine (rawEnqueueEntity_seat_group second).trans ((setRunq_seat_group first).trans ?_)
    exact (place _).trans ((updateCurr_seat _ q).trans (add s))

/-- What is common to `activate_entity` and `dequeue_entity` on a thread. -/
theorem boostDequeue_seat (s : State) (leaf : (s.seat t).myQ = none) :
    (match seToTd s (.thread t) with
      | some t => rawRunqDequeue s t
      | none => s).seat = update s.seat t (s.seat t).unboosted := by
  rw [seToTd_leaf s t leaf]
  exact rawRunqDequeue_seat ..

theorem boostDequeue_seat_group (s : State) (g : Gid) :
    (match seToTd s (.group g) with
      | some t => rawRunqDequeue s t
      | none => s).seat = s.seat := by
  rw [seToTd_group']

theorem dequeueLeave_seat (a : State) (q : Gid) (flags : Nat) :
    (updateSfqShares (updateSfqVtime
      (if flags &&& dequeueSleep = 0 then
        subVtime (((accountEntityDequeue a q e).emit (.leave q e)).modEnt e fun ent => { ent with joined := false }) q e
      else ((accountEntityDequeue a q e).emit (.leave q e)).modEnt e fun ent => { ent with joined := false }) q) q).seat =
    (a.modEnt e fun ent => { ent with joined := false }).seat := by
  have left : (((accountEntityDequeue a q e).emit (.leave q e)).modEnt e fun ent => { ent with joined := false }).seat =
      (a.modEnt e fun ent => { ent with joined := false }).seat := by
    cases e with
    | group g => simp
    | thread t =>
      rw [seat_setJoined, seat_setJoined]
      simp
  refine (updateSfqShares_seat ..).trans ((updateSfqVtime_seat ..).trans ?_)
  split
  · exact (subVtime_seat ..).trans left
  · exact left

theorem dequeueEntity_seat (leaf : (s.seat t).myQ = none) (run : dequeueEntity s q (.thread t) flags = some s') :
    ∃ y, (s.seat t).Leaves y ∧ s'.seat = update s.seat t y := by
  have charged : (updateCurr s q).seat = s.seat := updateCurr_seat ..
  have boost := boostDequeue_seat (updateCurr s q) (t := t) (by rw [charged]; exact leaf)
  have cleared := (clearCandidates_seat _ q (.thread t)).trans boost
  rw [charged] at cleared
  unfold dequeueEntity at run
  split at run
  · rename_i joined
    have joined' : (s.seat t).joined = true := joined
    dsimp only at run
    generalize clearCandidates _ q (.thread t) = c at run cleared
    refine ⟨{ (s.seat t).unboosted with onSfq := false, joined := false }, .inl ⟨joined', rfl⟩, ?_⟩
    split at run
    · obtain ⟨a, out, run⟩ := Option.bind_eq_some_iff.mp run
      cases run
      have look := (rawDequeueEntity_seat out).2
      rw [dequeueLeave_seat, seat_setJoined, look, cleared]
      simp only [update_idem, update_self]
    · rename_i off
      cases run
      have off' : (c.seat t).onSfq = false := by simpa [State.seat] using off
      rw [dequeueLeave_seat, seat_setJoined]
      rw [cleared, update_self] at off'
      rw [cleared, update_idem, update_self, ← off']
  · rename_i apart
    split at run
    · cases run
    · rename_i out
      cases run
      obtain ⟨offRunq, offSfq⟩ := not_or.mp out
      refine ⟨s.seat t, .inr ⟨?_, ?_, ?_, rfl⟩, (update_eq_self ..).symm⟩
      · simpa [State.seat] using apart
      · simpa [State.seat] using offSfq
      · simpa [State.seat] using offRunq

theorem dequeueEntity_seat_group {g : Gid} (run : dequeueEntity s q (.group g) flags = some s') : s'.seat = s.seat := by
  have cleared := ((clearCandidates_seat _ q (.group g)).trans (boostDequeue_seat_group (updateCurr s q) g)).trans
    (updateCurr_seat s q)
  unfold dequeueEntity at run
  split at run
  · dsimp only at run
    generalize clearCandidates _ q (.group g) = c at run cleared
    split at run
    · obtain ⟨a, out, run⟩ := Option.bind_eq_some_iff.mp run
      cases run
      rw [dequeueLeave_seat, seat_modEnt_group, rawDequeueEntity_seat_group out, cleared]
    · cases run
      rw [dequeueLeave_seat, seat_modEnt_group, cleared]
  · split at run
    · cases run
    · cases run
      rfl

theorem skipCharge_seat (s : State) (here : Prop) [Decidable here] :
    (updateCurr (if here then setSkipCandidate s e else s) q).seat = s.seat := by
  refine (updateCurr_seat ..).trans ?_
  split
  · exact setSkipWalk_seat ..
  · rfl

theorem putPrevEntity_seat (leaf : (s.seat t).myQ = none) (run : putPrevEntity s q (.thread t) flags = some s') :
    ∃ y, (s.seat t).PutBack y ∧ s'.seat = update s.seat t y := by
  unfold putPrevEntity at run
  split at run
  · rename_i joined
    obtain ⟨a, first, run⟩ := Option.bind_eq_some_iff.mp run
    obtain ⟨b, second, run⟩ := Option.bind_eq_some_iff.mp run
    cases run
    obtain ⟨z, queued, look⟩ := setRunq_seat (by rw [skipCharge_seat]; exact leaf) first
    rw [skipCharge_seat] at queued look
    obtain ⟨off, look'⟩ := rawEnqueueEntity_seat second
    rw [look, update_self] at off look'
    rw [update_idem] at look'
    have stays : z.onSfq = (s.seat t).onSfq := by
      obtain ⟨head, rfl⟩ := queued
      split <;> rfl
    exact ⟨{ z with onSfq := true }, .inl ⟨joined, stays ▸ off, z, queued, rfl⟩, look'⟩
  · rename_i apart
    cases run
    exact ⟨s.seat t, .inr ⟨by simpa [State.seat] using apart, rfl⟩, (update_eq_self ..).symm⟩

theorem putPrevEntity_seat_group {g : Gid} (run : putPrevEntity s q (.group g) flags = some s') : s'.seat = s.seat := by
  unfold putPrevEntity at run
  split at run
  · obtain ⟨a, first, run⟩ := Option.bind_eq_some_iff.mp run
    obtain ⟨b, second, run⟩ := Option.bind_eq_some_iff.mp run
    cases run
    refine (seat_modSfq ..).trans ((seat_emit ..).trans ((rawEnqueueEntity_seat_group second).trans ?_))
    exact (setRunq_seat_group first).trans (skipCharge_seat ..)
  · cases run
    rfl

theorem activateStart_seat (a : State) (q : Gid) (e : EntId) (ev : Event) (clock : BitVec 64) :
    (((a.emit ev).modSfq q fun sfq => { sfq with curr := some e }).modEnt e fun ent =>
      { ent with timingStart := clock, prevSumExecTime := ent.sumExecTime }).seat = a.seat := by
  refine (seat_modEnt_keeps _ ?_).trans rfl
  exact ⟨rfl, rfl, rfl, rfl⟩

theorem activateEntity_seat (leaf : (s.seat t).myQ = none) (run : activateEntity s q (.thread t) = some s') :
    (s.seat t).joined ∧ (s.seat t).onSfq ∧ s'.seat = update s.seat t { (s.seat t).unboosted with onSfq := false } := by
  have boost := boostDequeue_seat s (t := t) leaf
  have keeps : (s.seat t).unboosted.onSfq = (s.seat t).onSfq := by
    unfold Seat.unboosted
    split <;> rfl
  unfold activateEntity at run
  split at run
  · rename_i joined
    obtain ⟨a, out, run⟩ := Option.bind_eq_some_iff.mp run
    split at run
    · cases run
      have out' : rawDequeueEntity (match seToTd s (.thread t) with
        | some t => rawRunqDequeue s t
        | none => s) q (.thread t) = some a := out
      obtain ⟨there, look⟩ := rawDequeueEntity_seat out'
      rw [boost, update_self] at there look
      rw [update_idem] at look
      exact ⟨joined, keeps ▸ there, (activateStart_seat ..).trans look⟩
    · cases run
  · cases run

theorem activateEntity_seat_group {g : Gid} (run : activateEntity s q (.group g) = some s') : s'.seat = s.seat := by
  unfold activateEntity at run
  split at run
  · obtain ⟨a, out, run⟩ := Option.bind_eq_some_iff.mp run
    split at run
    · cases run
      exact (activateStart_seat ..).trans ((rawDequeueEntity_seat_group out).trans (boostDequeue_seat_group s g))
    · cases run
  · cases run

end entities
end SfqSched
