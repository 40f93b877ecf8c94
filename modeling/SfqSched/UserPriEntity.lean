import SfqSched.UserPri

namespace SfqSched
open State

section
variable {r : Prop} (s : State) (q : Gid) (e : EntId)

/-- Clocks, times and loads are no priority: nothing is reset here. -/
theorem updateRqClock_charges : Charges r s (updateRqClock s) := .of_changes (updateRqClock_changes s) Charges.free_ticking

theorem updateSfqVtime_charges : Charges r s (updateSfqVtime s q) :=
  .of_changes (updateSfqVtime_changes s q) Charges.free_timing

theorem placeEntityInitial_charges : Charges r s (placeEntityInitial s q e) :=
  .of_changes (placeEntityInitial_changes s q e) Charges.free_spending

theorem placeEntity_charges : Charges r s (placeEntity s q e) := .of_changes (placeEntity_changes s q e) Charges.free_timing

theorem addVtime_charges : Charges r s (addVtime s q e) := .of_changes (addVtime_changes s q e) Charges.free_timing

theorem subVtime_charges : Charges r s (subVtime s q e) := .of_changes (subVtime_changes s q e) Charges.free_timing

/-- The reset itself, of the thread that is current. -/
theorem resetUserPri_charges (current : (s.sfq q).curr = some e) : Charges True s (resetUserPri s e) := by
  unfold resetUserPri
  split
  · rename_i t isThread
    have same : e = .thread t := by
      unfold seToTd at isThread
      split at isThread
      · cases isThread
        rfl
      · cases isThread
    split
    · rename_i due
      refine ⟨⟨⟨fun _ => .inl rfl, fun _ => rfl, ?_, ?_, ?_, ?_⟩, ?_⟩, .same rfl rfl (fun _ => rfl) rfl⟩
      all_goals
        intro u
        by_cases here : u = t
        · subst here
          simp [State.modTd, State.charged, due.1]
          try exact .inr (.inr ⟨q, same ▸ current⟩)
        · simp [State.modTd, State.charged, here]
    · exact .refl s
  · exact .refl s

/-- The charge itself comes after the reset and stores times. -/
theorem chargeEntity_charges (d now : BitVec 64) : Charges r s (chargeEntity s q e d now) :=
  .of_changes (chargeEntity_changes s q e d now) Charges.free_spending

/-- `update_curr` is where a lent user priority is reset. -/
theorem updateCurr_charges : Charges True s (updateCurr s q) := by
  unfold updateCurr
  split
  · exact .refl s
  · rename_i curr current
    have first := resetUserPri_charges s q curr current
    dsimp only
    split
    · exact first
    · exact first.trans (chargeEntity_charges ..)

/-- Counts and loads are no priority either. -/
theorem accountEntityEnqueue_charges : Charges r s (accountEntityEnqueue s q e) :=
  .of_changes (accountEntityEnqueue_changes s q e) Charges.free_accounting

theorem accountEntityDequeue_charges : Charges r s (accountEntityDequeue s q e) :=
  .of_changes (accountEntityDequeue_changes s q e) Charges.free_accounting

/-- The current entity is charged before its weight changes, so a reset may come with it. -/
theorem updateEntityWeight_charges (w : Nat) : Charges True s (updateEntityWeight s q e w) := by
  have first : Charges True s (if (s.sfq q).curr = some e then updateCurr s q else s) := by
    split
    · exact updateCurr_charges ..
    · exact .refl s
  unfold updateEntityWeight
  split
  · exact first.trans ((accountEntityDequeue_charges ..).trans
      ((Charges.modEnt _ _ _ ⟨rfl, rfl, rfl⟩).trans (accountEntityEnqueue_charges ..)))
  · exact .modEnt _ _ _ ⟨rfl, rfl, rfl⟩

theorem updateSfqShares_charges : Charges True s (updateSfqShares s q) := by
  unfold updateSfqShares
  dsimp only
  split
  · exact .refl s
  · split
    · exact .refl s
    · exact updateEntityWeight_charges ..

/-- The realtime queue goes by the priority and stores none. -/
theorem runqAdd_charges (t : Tid) (head : Bool) : Charges r s (runqAdd s t head) := by
  unfold runqAdd
  exact .modRq ..

theorem runqRemove_charges (t : Tid) : Charges r s (runqRemove s t) := .modRq ..

theorem rawRunqEnqueue_charges {t : Tid} {flags : Nat} {s' : State} (run : rawRunqEnqueue s t flags = some s') :
    Charges r s s' := .of_changes (rawRunqEnqueue_changes run) Charges.free_shelving

theorem rawRunqDequeue_charges (t : Tid) : Charges r s (rawRunqDequeue s t) :=
  .of_changes (rawRunqDequeue_changes s t) Charges.free_shelving

/-- A store to a timeline, and to the flag that goes with it. -/
theorem setOnSfq_moves (f : Sfq → Sfq) (flag : Bool)
    (keeps : ∀ x, (f (s.sfq q)).curr = some x → (s.sfq q).curr = some x) :
    Moves r s ((s.modSfq q f).modEnt e fun ent => { ent with onSfq := flag }) := by
  have curr (x : Gid) (c : EntId) (current : ((s.modSfq q f).sfq x).curr = some c) : (s.sfq x).curr = some c := by
    by_cases here : x = q
    · subst here
      exact keeps c (by simpa [State.modSfq] using current)
    · simpa [State.modSfq, here] using current
  refine ⟨⟨fun x => .inl ?_, fun _ => rfl, fun _ => rfl, fun _ => rfl, fun _ => rfl, fun _ => .inl rfl⟩, ?_⟩
  · by_cases here : x = e
    · subst here
      simp [State.modEnt, State.modSfq]
    · simp [State.modEnt, State.modSfq, here]
  · rintro t (running | ⟨x, current⟩)
    · exact .inl running
    · exact .inr ⟨x, curr x _ current⟩

/-- The timeline is the one of the entity's own queue, so the entity stays where it belongs. -/
theorem rawEnqueueEntity_charges {s' : State} (own : (s.ent e).sfq = q) (run : rawEnqueueEntity s q e = some s') :
    Charges r s s' := by
  have keeps := Keeps.insert own run
  unfold rawEnqueueEntity at run
  split at run
  · cases run
  · cases run
    exact ⟨(Charges.emit ..).toMoves.trans (setOnSfq_moves _ q e _ true fun _ => id), keeps⟩

theorem rawDequeueEntity_charges {s' : State} (own : (s.ent e).sfq = q) (run : rawDequeueEntity s q e = some s') :
    Charges r s s' := by
  have keeps := Keeps.remove own run
  unfold rawDequeueEntity at run
  split at run
  · cases run
    exact ⟨setOnSfq_moves _ q e _ false fun _ => id, keeps⟩
  · cases run

theorem addLeafSfq_charges : Charges r s (addLeafSfq s q) := .of_changes (addLeafSfq_changes s q) Charges.free_listing

theorem reschedThread_charges (t : Tid) : Charges r s (reschedThread s t) :=
  .of_changes (reschedThread_changes s t) Charges.free_asking

/-- A thread that stops is no longer one to be charged. -/
theorem setTdState_charges (t : Tid) (st : TdState) (stops : st ≠ .running) : Charges r s (setTdState s t st) :=
  .modTd _ _ _ ⟨rfl, rfl, rfl, rfl⟩ fun running => absurd running stops

theorem setSkipWalk_charges (chain : List EntId) : Charges r s (setSkipWalk s chain) :=
  .of_changes (setSkipWalk_changes s chain) Charges.free_marking

theorem setNextCandidate_charges : Charges r s (setNextCandidate s e) :=
  .of_changes (setNextCandidate_changes s e) Charges.free_marking

theorem clearCandidates_charges : Charges r s (clearCandidates s q e) :=
  .of_changes (clearCandidates_changes s e q) Charges.free_marking

theorem setRunq_charges {flags : Nat} {s' : State} (run : setRunq s e flags = some s') : Charges r s s' := by
  unfold setRunq at run
  split at run
  · dsimp only at run
    split at run
    · exact (setTdState_charges _ _ _ (by simp)).trans (rawRunqEnqueue_charges _ run)
    · cases run
      exact setTdState_charges _ _ _ (by simp)
  · cases run
    exact .refl s

end

section entities
variable {s s' : State} {q : Gid} {e : EntId} {flags : Nat}

/-- The current entity is charged a last time before it goes back. -/
theorem putPrevEntity_charges (own : (s.ent e).sfq = q) (run : putPrevEntity s q e flags = some s') : Charges True s s' := by
  have release (s : State) : Charges True s
      ((s.emit (.release q e s.rq.clockThread)).modSfq q fun sfq => { sfq with curr := none }) :=
    Charges.trans (.emit ..) (.modSfq _ _ _ (by simp) rfl)
  unfold putPrevEntity at run
  split at run
  · obtain ⟨a, boost, run⟩ := Option.bind_eq_some_iff.mp run
    obtain ⟨b, insert, run⟩ := Option.bind_eq_some_iff.mp run
    cases run
    have skip : Charges True s
        (if (seToTd s e).isSome ∧ flags &&& swTypeMask = swtRelinquish then setSkipCandidate s e else s) := by
      split
      · exact setSkipWalk_charges ..
      · exact .refl s
    have before := (skip.trans (updateCurr_charges ..)).trans (setRunq_charges _ _ boost)
    exact (before.trans (rawEnqueueEntity_charges _ _ _ ((before.place e).trans own) insert)).trans (release b)
  · cases run
    exact release s

theorem wakeupPreemptEntity_charges (c first : EntId) {r : Prop} : Charges r s (wakeupPreemptEntity s c first).2 :=
  .of_changes (wakeupPreemptEntity_changes s c first) Charges.free_caching

/-- The current entity of the queue is charged before another one joins. -/
theorem enqueueEntity_charges (own : (s.ent e).sfq = q) (run : enqueueEntity s q e flags = some s') : Charges True s s' := by
  unfold enqueueEntity at run
  split at run
  · cases run
  · obtain ⟨a, first, run⟩ := Option.bind_eq_some_iff.mp run
    obtain ⟨b, second, run⟩ := Option.bind_eq_some_iff.mp run
    cases run
    have vruntime : Charges True s a := by
      refine Charges.trans ?_ (setRunq_charges _ _ first)
      have add : Charges True s (if flags &&& enqueueWakeup = 0 then addVtime s q e else s) := by
        split
        · exact addVtime_charges ..
        · exact .refl s
      have place (s : State) : Charges True s (if flags &&& enqueueWakeup ≠ 0 then placeEntity s q e else s) := by
        split
        · exact placeEntity_charges ..
        · exact .refl s
      exact (add.trans (updateCurr_charges ..)).trans (place _)
    have queued := vruntime.trans (rawEnqueueEntity_charges _ _ _ ((vruntime.place e).trans own) second)
    have counted := (queued.trans (accountEntityEnqueue_charges _ q e)).trans (updateSfqShares_charges _ q)
    refine Charges.trans (Charges.trans (counted.trans ?_) (.emit ..)) (.modEnt _ _ _ ⟨rfl, rfl, rfl⟩)
    split
    · exact addLeafSfq_charges ..
    · exact .refl _

/-- `enqueue_entity` and `dequeue_entity` take a thread with a raised priority from the run queue first. -/
theorem dropBoost_charges {r : Prop} (s : State) (e : EntId) : Charges r s (match seToTd s e with
    | some t => rawRunqDequeue s t
    | none => s) := by
  split
  · exact rawRunqDequeue_charges ..
  · exact .refl s

/-- The current entity of the queue is charged before another one leaves. -/
theorem dequeueEntity_charges (own : (s.ent e).sfq = q) (run : dequeueEntity s q e flags = some s') : Charges True s s' := by
  have leave (a : State) : Charges True a (updateSfqShares (updateSfqVtime
      (if flags &&& dequeueSleep = 0 then
        subVtime (((accountEntityDequeue a q e).emit (.leave q e)).modEnt e fun ent => { ent with joined := false }) q e
      else ((accountEntityDequeue a q e).emit (.leave q e)).modEnt e fun ent => { ent with joined := false }) q) q) := by
    have left : Charges True a (((accountEntityDequeue a q e).emit (.leave q e)).modEnt e fun ent =>
        { ent with joined := false }) :=
      Charges.trans ((accountEntityDequeue_charges ..).trans (.emit ..)) (.modEnt _ _ _ ⟨rfl, rfl, rfl⟩)
    refine (left.trans (Charges.trans ?_ (updateSfqVtime_charges ..))).trans (updateSfqShares_charges ..)
    split
    · exact subVtime_charges ..
    · exact .refl _
  have cleared := ((updateCurr_charges s q).trans (dropBoost_charges _ e)).trans (clearCandidates_charges _ q e)
  unfold dequeueEntity at run
  split at run
  · dsimp only at run
    generalize clearCandidates _ q e = c at run cleared
    split at run
    · obtain ⟨a, out, run⟩ := Option.bind_eq_some_iff.mp run
      cases run
      exact (cleared.trans (rawDequeueEntity_charges _ _ _ ((cleared.place e).trans own) out)).trans (leave a)
    · cases run
      exact cleared.trans (leave _)
  · split at run
    · cases run
    · cases run
      exact .refl s

end entities
end SfqSched
