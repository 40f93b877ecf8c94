import SfqSched.SeatClass

namespace SfqSched
open State Function

/-- The chain of a thread: its own entity, then groups. -/
theorem Groups.chain_cons {s : State} (groups : Groups s) (t : Tid) :
    ∃ rest, walkup s (some (.thread t)) = .thread t :: rest ∧ ∀ e ∈ rest, ∃ g, e = .group g := by
  have above : ∀ (fuel : Nat) (o : Option EntId), (∀ p, o = some p → ∃ g, p = .group g) →
      ∀ e ∈ climb (fun e => (s.ent e).parent) fuel o, ∃ g, e = .group g := by
    intro fuel
    induction fuel with
    | zero => simp [climb]
    | succ fuel ih =>
      intro o first e member
      cases o with
      | none => simp [climb] at member
      | some p =>
        rcases List.mem_cons.mp member with rfl | above
        · exact first e rfl
        · exact ih _ (fun x up => groups.parent p x up) e above
  exact ⟨_, rfl, above _ _ fun p up => groups.parent _ p up⟩

section pss
variable {s s' : State} {q : Gid} {t : Tid} {flags : Nat}

/-- No seat shows the counts of the CPU. -/
@[simp] theorem rqRunAdd_seat (s : State) (t : Tid) : (rqRunAdd s t).seat = s.seat := by
  unfold rqRunAdd
  dsimp only
  split <;> rfl

theorem rqRunRem_seat (run : rqRunRem s t = some s') : s'.seat = s.seat := by
  unfold rqRunRem at run
  split at run
  · cases run
  · cases run
    split <;> rfl

@[simp] theorem checkPriorityPreempt_seat (s : State) (t : Tid) : (checkPriorityPreempt s t).seat = s.seat :=
  (checkPriorityPreempt_changes s t).seat asking_seat

/-- No seat shows a weight. -/
@[simp] theorem updateSharesWalk_seat (s : State) (chain : List EntId) : (updateSharesWalk s chain).seat = s.seat :=
  (updateSharesWalk_changes s chain).seat weighing_seat

/-- Above the thread itself the walk seats groups only. -/
theorem pssEnqueueWalk_seat_groups {chain : List EntId} (groups : ∀ e ∈ chain, ∃ g, e = .group g)
    (run : pssEnqueueWalk s chain flags = some s') : s'.seat = s.seat := by
  induction chain generalizing s flags with
  | nil =>
    cases run
    rfl
  | cons se rest ih =>
    obtain ⟨g, rfl⟩ := groups se (List.mem_cons_self ..)
    unfold pssEnqueueWalk at run
    split at run
    · cases run
      exact updateSharesWalk_seat ..
    · split at run
      · cases run
      · rename_i step
        exact (ih (fun e member => groups e (List.mem_cons_of_mem _ member)) run).trans
          (enqueueEntity_seat_group step)

/-- A thread that is queued enters its seat; a joined one has its seat already. -/
theorem pssEnqueueThread_seat (groups : Groups s) (leaf : (s.seat t).myQ = none)
    (run : pssEnqueueThread s t flags = some s') :
    ∃ y, ((s.seat t).Enters y ∨ (s.seat t).joined ∧ y = s.seat t) ∧ s'.seat = update s.seat t y := by
  obtain ⟨rest, eq, above⟩ := groups.chain_cons t
  obtain ⟨a, walk, rfl⟩ := Option.map_eq_some_iff.mp run
  rw [eq] at walk
  unfold pssEnqueueWalk at walk
  rw [rqRunAdd_seat]
  split at walk
  · rename_i joined
    cases walk
    exact ⟨s.seat t, .inr ⟨joined, rfl⟩, by simp⟩
  · split at walk
    · cases walk
    · rename_i step
      obtain ⟨y, enters, look⟩ := enqueueEntity_seat leaf step
      exact ⟨y, .inl enters, (pssEnqueueWalk_seat_groups above walk).trans look⟩

/-- Above the thread itself the walk unseats groups only. -/
theorem pssDequeueWalk_seat_groups {isSleep : Bool} {chain : List EntId} (groups : ∀ e ∈ chain, ∃ g, e = .group g)
    (run : pssDequeueWalk isSleep s chain flags = some s') : s'.seat = s.seat := by
  induction chain generalizing s flags with
  | nil =>
    cases run
    rfl
  | cons se rest ih =>
    obtain ⟨g, rfl⟩ := groups se (List.mem_cons_self ..)
    unfold pssDequeueWalk at run
    dsimp only at run
    split at run
    · cases run
    · rename_i step
      have first := dequeueEntity_seat_group step
      split at run
      · cases run
        refine (updateSharesWalk_seat ..).trans (Eq.trans ?_ first)
        split
        · exact setNextCandidate_seat ..
        · rfl
      · exact (ih (fun e member => groups e (List.mem_cons_of_mem _ member)) run).trans first

/-- A thread that is taken off leaves its seat, and no other is touched. -/
theorem pssDequeueThread_seat (groups : Groups s) (leaf : (s.seat t).myQ = none)
    (run : pssDequeueThread s t flags = some s') : ∃ y, (s.seat t).Leaves y ∧ s'.seat = update s.seat t y := by
  obtain ⟨rest, eq, above⟩ := groups.chain_cons t
  obtain ⟨a, walk, last⟩ := Option.bind_eq_some_iff.mp run
  rw [eq] at walk
  unfold pssDequeueWalk at walk
  dsimp only at walk
  rw [rqRunRem_seat last]
  split at walk
  · cases walk
  · rename_i step
    obtain ⟨y, leaves, look⟩ := dequeueEntity_seat leaf step
    refine ⟨y, leaves, Eq.trans ?_ look⟩
    split at walk
    · cases walk
      refine (updateSharesWalk_seat ..).trans ?_
      split
      · exact setNextCandidate_seat ..
      · rfl
    · exact pssDequeueWalk_seat_groups above walk

/-- A thread that had the CPU is back in its timeline if it is joined. -/
theorem pssPutPrevThread_seat (groups : Groups s) (leaf : (s.seat t).myQ = none)
    (run : pssPutPrevThread s t flags = some s') : ∃ y, (s.seat t).PutBack y ∧ s'.seat = update s.seat t y := by
  have groupWalk (chain : List EntId) (s s' : State) (groups : ∀ e ∈ chain, ∃ g, e = .group g)
      (run : pssPutPrevWalk s chain flags = some s') : s'.seat = s.seat := by
    induction chain generalizing s with
    | nil =>
      cases run
      rfl
    | cons se rest ih =>
      obtain ⟨g, rfl⟩ := groups se (List.mem_cons_self ..)
      unfold pssPutPrevWalk at run
      split at run
      · cases run
      · rename_i step
        exact (ih _ (fun e member => groups e (List.mem_cons_of_mem _ member)) run).trans
          (putPrevEntity_seat_group step)
  obtain ⟨rest, eq, above⟩ := groups.chain_cons t
  obtain ⟨a, walk, rfl⟩ := Option.map_eq_some_iff.mp run
  rw [eq] at walk
  unfold pssPutPrevWalk at walk
  split at walk
  · cases walk
  · rename_i step
    obtain ⟨y, back, look⟩ := putPrevEntity_seat leaf step
    exact ⟨y, back, (groupWalk _ _ _ above walk).trans look⟩

/-- A thread that gets the CPU has waited in its timeline, and no longer does. -/
theorem pssActivateThread_seat (groups : Groups s) (leaf : (s.seat t).myQ = none)
    (run : pssActivateThread s t = some s') :
    (s.seat t).joined ∧ (s.seat t).onSfq ∧
      s'.seat = update s.seat t { (s.seat t).unboosted with onSfq := false, tdState := .running } := by
  have groupWalk (chain : List EntId) (s s' : State) (groups : ∀ e ∈ chain, ∃ g, e = .group g)
      (run : pssActivateWalk s chain = some s') : s'.seat = s.seat := by
    induction chain generalizing s with
    | nil =>
      cases run
      rfl
    | cons se rest ih =>
      obtain ⟨g, rfl⟩ := groups se (List.mem_cons_self ..)
      unfold pssActivateWalk at run
      split at run
      · cases run
      · rename_i step
        exact (ih _ (fun e member => groups e (List.mem_cons_of_mem _ member)) run).trans
          (activateEntity_seat_group step)
  obtain ⟨rest, eq, above⟩ := groups.chain_cons t
  obtain ⟨a, walk, rfl⟩ := Option.map_eq_some_iff.mp run
  rw [eq] at walk
  unfold pssActivateWalk at walk
  split at walk
  · cases walk
  · rename_i step
    obtain ⟨joined, there, look⟩ := activateEntity_seat leaf step
    refine ⟨joined, there, ?_⟩
    rw [seat_emit, setTdState_seat, groupWalk _ _ _ above walk, look, update_idem, update_self]

theorem pssPickNextThread_seat {picked : Option Tid} (run : pssPickNextThread s = some (picked, s')) :
    s'.seat = s.seat := (pssPickNextThread_changes run).seat picking_seat

theorem pssCheckPreemptCurr_seat (run : pssCheckPreemptCurr s t = some s') : s'.seat = s.seat :=
  (pssCheckPreemptCurr_changes run).seat preempting_seat

/-- A tick asks for the CPU, and the seats stay. -/
@[simp] theorem pssTickThread_seat (s : State) (t : Tid) : (pssTickThread s t).seat = s.seat :=
  (pssTickThread_changes s t).seat preempting_seat

/-- A child that is placed is not yet queued. -/
@[simp] theorem pssForkThread_seat (s : State) (parent child : Tid) : (pssForkThread s parent child).seat = s.seat := by
  have place (s : State) : (pssForkPlace s parent child).seat = s.seat := by
    unfold pssForkPlace
    refine (placeEntityInitial_seat ..).trans ((seat_modEnt_keeps _ ?_).trans ?_)
    · exact ⟨rfl, rfl, rfl, rfl⟩
    · exact (updateCurr_seat ..).trans (updateRqClock_seat s)
  have swap (s : State) : (pssForkSwap s parent child).seat = s.seat := by
    unfold pssForkSwap
    refine (reschedThread_seat ..).trans ((seat_modEnt_keeps _ ?_).trans ((seat_emit ..).trans
      (seat_modEnt_keeps _ ?_)))
    · exact ⟨rfl, rfl, rfl, rfl⟩
    · exact ⟨rfl, rfl, rfl, rfl⟩
  unfold pssForkThread
  refine (seat_emit ..).trans ((seat_modEnt_keeps _ ?_).trans ?_)
  · exact ⟨rfl, rfl, rfl, rfl⟩
  · split
    · exact (swap _).trans (place s)
    · exact place s

@[simp] theorem pssSwitchedFrom_seat (s : State) (t : Tid) : (pssSwitchedFrom s t).seat = s.seat :=
  (pssSwitchedFrom_changes s t).seat timing_seat

/-- A seat does not say in which queue it is. -/
@[simp] theorem setThreadRq_seat (s : State) (t : Tid) : (setThreadRq s t).seat = s.seat := by
  unfold setThreadRq
  dsimp only
  refine seat_modEnt_keeps s ?_
  exact ⟨rfl, rfl, rfl, rfl⟩

@[simp] theorem setThreadWeight_seat (s : State) (t : Tid) : (setThreadWeight s t).seat = s.seat := by
  refine seat_modEnt_keeps s ?_
  exact ⟨rfl, rfl, rfl, rfl⟩

@[simp] theorem pssSchedGroupMove_seat (s : State) (t : Tid) (onRq : Bool) :
    (pssSchedGroupMove s t onRq).seat = s.seat := by
  unfold pssSchedGroupMove
  dsimp only
  split <;> simp

@[simp] theorem pssSchedGroupSetShares_seat (s : State) (g : Gid) (shares : Nat) :
    (pssSchedGroupSetShares s g shares).2.seat = s.seat := by
  unfold pssSchedGroupSetShares
  split
  · rfl
  · have first : (if shares = 0 then s.modGrp g fun sg => { sg with shares := nice0Weight } else s).seat = s.seat := by
      split <;> rfl
    dsimp only
    generalize (if shares = 0 then s.modGrp g fun sg => { sg with shares := nice0Weight } else s) = a at first ⊢
    generalize (if shares = 0 then shares else clampShares shares) = stored
    split
    · exact first
    · exact (updateSharesWalk_seat ..).trans first

end pss

section classes
variable {s s' : State} {t : Tid} {flags : Nat}

/-- In each class a thread that is queued enters its own seat. -/
theorem classEnqueueThread_seat (groups : Groups s) (leaf : (s.seat t).myQ = none)
    (run : classEnqueueThread (s.seat t).cls s t flags = some s') :
    ∃ y, (s.seat t).Enqueued y ∧ s'.seat = update s.seat t y := by
  unfold Seat.Enqueued
  cases cls : (s.seat t).cls with
  | pss =>
    rw [cls] at run
    exact pssEnqueueThread_seat groups leaf run
  | idle =>
    rw [cls] at run
    cases run
    exact ⟨s.seat t, rfl, (update_eq_self ..).symm⟩
  | realtime =>
    rw [cls] at run
    change rtEnqueueThread s t flags = some s' at run
    unfold rtEnqueueThread at run
    dsimp only at run
    split at run
    · cases run
    · rename_i out
      cases run
      simp only [not_or] at out
      refine ⟨{ (s.seat t).boosted (decide (flags &&& enqueueHead ≠ 0)) with tdState := .runq, joined := true },
        ⟨?_, ?_, ?_, _, rfl⟩, ?_⟩
      · simpa [State.seat] using out.1
      · simpa [State.seat] using out.2.1
      · simpa [State.seat] using out.2.2
      · have first := seat_modEnt (runqAdd s t (decide (flags &&& enqueueHead ≠ 0))) t fun se => { se with onRunq := true }
        rw [runqAdd_seat, update_idem, update_self] at first
        refine (seat_setJoined ..).trans ?_
        rw [rqRunAdd_seat, setTdState_seat, first, update_self, update_idem, update_self, update_idem]
        rfl

/-- In each class a thread that is taken off leaves its own seat. -/
theorem classDequeueThread_seat (groups : Groups s) (leaf : (s.seat t).myQ = none)
    (run : classDequeueThread (s.seat t).cls s t flags = some s') :
    ∃ y, (s.seat t).Dequeued y ∧ s'.seat = update s.seat t y := by
  unfold Seat.Dequeued
  cases cls : (s.seat t).cls with
  | pss =>
    rw [cls] at run
    exact pssDequeueThread_seat groups leaf run
  | idle =>
    rw [cls] at run
    cases run
    exact ⟨s.seat t, rfl, (update_eq_self ..).symm⟩
  | realtime =>
    rw [cls] at run
    change rtDequeueThread s t = some s' at run
    unfold rtDequeueThread at run
    split at run
    · rename_i joined
      obtain ⟨a, rem, run⟩ := Option.bind_eq_some_iff.mp run
      have look := (rqRunRem_seat rem).trans (rawRunqDequeue_seat s t)
      have keeps : (s.seat t).unboosted.onSfq = (s.seat t).onSfq := by
        unfold Seat.unboosted
        split <;> rfl
      split at run
      · cases run
      · rename_i off
        cases run
        refine ⟨{ (s.seat t).unboosted with joined := false }, .inl ⟨joined, ?_, rfl⟩, ?_⟩
        · have off' : (a.seat t).onSfq = false := by simpa [State.seat] using off
          rw [look, update_self] at off'
          exact keeps ▸ off'
        · refine (seat_setJoined ..).trans ?_
          rw [look, update_self, update_idem]
    · rename_i apart
      cases run
      exact ⟨s.seat t, .inr ⟨by simpa [State.seat] using apart, rfl⟩, (update_eq_self ..).symm⟩

/-- In each class the thread that had the CPU is put back or let go. -/
theorem classPutPrevThread_seat (groups : Groups s) (leaf : (s.seat t).myQ = none)
    (run : classPutPrevThread (s.seat t).cls s t flags = some s') :
    ∃ y, (s.seat t).Released y ∧ s'.seat = update s.seat t y := by
  unfold Seat.Released
  cases cls : (s.seat t).cls with
  | pss =>
    rw [cls] at run
    exact pssPutPrevThread_seat groups leaf run
  | idle =>
    rw [cls] at run
    cases run
    refine ⟨_, rfl, (setTdState_seat ..).trans ?_⟩
    simp only [cls]
  | realtime =>
    rw [cls] at run
    change rtPutPrevThread s t flags = some s' at run
    unfold rtPutPrevThread at run
    split at run
    · rename_i joined
      split at run
      · cases run
      · rename_i off
        cases run
        refine ⟨{ (s.seat t).boosted (decide (flags &&& swTypeMask = swtPreempt)) with tdState := .runq },
          .inl ⟨joined, by simpa [State.seat] using off, _, rfl⟩, ?_⟩
        refine (seat_modRq_keeps _ rfl).trans ((seat_setOnRunq _ t true (fun se => { se with onRunq := true })
          fun _ => ⟨rfl, rfl, rfl, rfl⟩).trans ?_)
        rw [runqAdd_seat, setTdState_seat, update_self, update_idem, update_self, update_idem]
        rfl
    · rename_i apart
      cases run
      exact ⟨s.seat t, .inr ⟨by simpa [State.seat] using apart, rfl⟩, (update_eq_self ..).symm⟩

/-- In each class the thread that gets the CPU had its seat in the queues. -/
theorem classActivateThread_seat (groups : Groups s) (leaf : (s.seat t).myQ = none)
    (run : classActivateThread (s.seat t).cls s t = some s') :
    ∃ y, (s.seat t).Activated y ∧ s'.seat = update s.seat t y := by
  unfold Seat.Activated
  cases cls : (s.seat t).cls with
  | pss =>
    rw [cls] at run
    obtain ⟨joined, there, look⟩ := pssActivateThread_seat groups leaf run
    exact ⟨_, ⟨joined, there, rfl⟩, look⟩
  | idle =>
    rw [cls] at run
    cases run
    refine ⟨_, rfl, (setTdState_seat ..).trans ?_⟩
    simp only [cls]
  | realtime =>
    rw [cls] at run
    change rtActivateThread s t = some s' at run
    unfold rtActivateThread at run
    dsimp only at run
    split at run
    · rename_i may
      cases run
      refine ⟨_, ⟨may.1, may.2.1, by simpa [State.seat] using may.2.2, rfl⟩, ?_⟩
      have first := seat_setOnRunq (runqRemove s t) t false
        (fun se => { se with
          onRunq := false
          timingStart := s.kernel.schedTimeCpu s.reads
          prevSumExecTime := se.sumExecTime }) fun _ => ⟨rfl, rfl, rfl, rfl⟩
      rw [runqRemove_seat, update_self, update_idem] at first
      refine (setTdState_seat ..).trans ?_
      change update (State.seat (State.modEnt (runqRemove s t) (.thread t) fun se =>
        { se with
          onRunq := false
          timingStart := s.kernel.schedTimeCpu s.reads
          prevSumExecTime := se.sumExecTime })) t { State.seat (State.modEnt (runqRemove s t) (.thread t) fun se =>
        { se with
          onRunq := false
          timingStart := s.kernel.schedTimeCpu s.reads
          prevSumExecTime := se.sumExecTime }) t with tdState := .running } = _
      rw [first, update_self, update_idem]
      simp only [cls]
    · cases run

end classes
end SfqSched
