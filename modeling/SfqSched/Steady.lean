import SfqSched.SchedFrame
import SfqSched.Timelines

namespace SfqSched
open State Function

/-- Everything a thread's weight depends on stays as it is: processes, classes,
the tunables, and the loads of threads that have one. No thread comes or goes.
Timelines change by calls only, and the loads of queues by the functions for loads. -/
structure Steady (s s' : State) : Prop where
  tun : s'.tun = s.tun
  proc : s'.proc = s.proc
  nprocs : s'.nprocs = s.nprocs
  nthreads : s'.nthreads = s.nthreads
  exited : ∀ t, (s'.td t).exited = (s.td t).exited
  pid : ∀ t, (s'.td t).proc = (s.td t).proc
  priClass : ∀ t, (s'.td t).tdPriClass = (s.td t).tdPriClass
  load : ∀ t, (s.ent (.thread t)).load.invWeight ≠ 0 → (s'.ent (.thread t)).load = (s.ent (.thread t)).load
  calls : Calls s s'
  queues : ∀ q, (s.sfq q).load.Kept → (s'.sfq q).load.Kept

/-- What is stored without a thread's weight depending on it. -/
def Steady.free : Cell → Bool
  | .tun | .nthreads | .nprocs | .proc | .onSfq | .weight | .invWeight | .timeline | .sfqLoad | .cls | .exited | .identity => false
  | _ => true

namespace Steady
variable {s s' s'' : State}

theorem refl (s : State) : Steady s s :=
  ⟨rfl, rfl, rfl, rfl, fun _ => rfl, fun _ => rfl, fun _ => rfl, fun _ _ => rfl, .refl s, fun _ => id⟩

theorem trans (h : Steady s s') (h' : Steady s' s'') : Steady s s'' where
  tun := h'.tun.trans h.tun
  proc := h'.proc.trans h.proc
  nprocs := h'.nprocs.trans h.nprocs
  nthreads := h'.nthreads.trans h.nthreads
  exited t := (h'.exited t).trans (h.exited t)
  pid t := (h'.pid t).trans (h.pid t)
  priClass t := (h'.priClass t).trans (h.priClass t)
  load t set := (h'.load t (by rw [h.load t set]; exact set)).trans (h.load t set)
  calls := h.calls.trans h'.calls
  queues q kept := h'.queues q (h.queues q kept)

/-- A store to an entity may set a thread's load only where there is none yet. -/
theorem modEnt (s : State) (e : EntId) (f : SchedEntity → SchedEntity)
    (keeps : ∀ t, e = .thread t → (s.ent e).load.invWeight ≠ 0 → (f (s.ent e)).load = (s.ent e).load)
    (flag : (f (s.ent e)).onSfq = (s.ent e).onSfq) : Steady s (s.modEnt e f) where
  tun := rfl
  proc := rfl
  nprocs := rfl
  nthreads := rfl
  exited _ := rfl
  pid _ := rfl
  priClass _ := rfl
  load t set := by
    by_cases same : EntId.thread t = e
    · subst same
      simpa [State.modEnt] using keeps t rfl set
    · simp [State.modEnt, same]
  calls := .modEnt s e f flag
  queues _ := id

/-- A store to a queue may not touch the timeline, and may store a load only by the functions for loads. -/
theorem modSfq (s : State) (q : Gid) (f : Sfq → Sfq) (tree : (f (s.sfq q)).timeline = (s.sfq q).timeline)
    (load : (s.sfq q).load.Kept → (f (s.sfq q)).load.Kept) : Steady s (s.modSfq q f) where
  tun := rfl
  proc := rfl
  nprocs := rfl
  nthreads := rfl
  exited _ := rfl
  pid _ := rfl
  priClass _ := rfl
  load _ _ := rfl
  calls := .modSfq s q f tree
  queues p kept := by
    by_cases here : p = q
    · subst here
      simpa [State.modSfq] using load kept
    · simpa [State.modSfq, here] using kept

/-- All the fields at once, for a function that writes none of what they read. -/
theorem of_free (same : Changes Steady.free s s') : Steady s s' where
  tun := same.read State.tun fun _ => rfl
  proc := same.read State.proc fun _ => rfl
  nprocs := same.read State.nprocs fun _ => rfl
  nthreads := same.read State.nthreads fun _ => rfl
  exited t := same.read (fun s => (s.td t).exited) fun _ => rfl
  pid t := same.read (fun s => (s.td t).proc) fun _ => rfl
  priClass t := same.read (fun s => (s.td t).tdPriClass) fun _ => rfl
  load t _ := same.read (fun s => (s.ent (.thread t)).load) fun _ => rfl
  calls := .still (same.read State.kernel fun _ => rfl) (same.read State.trees fun _ => rfl) (same.read State.flags fun _ => rfl)
  queues q kept := by
    rw [same.read (fun s => (s.sfq q).load) fun _ => rfl]
    exact kept

/-- A store to nothing a thread's weight depends on. -/
theorem of_changes {w : Cell → Bool} (h : Changes w s s') (free : w ≤ Steady.free) : Steady s s' := .of_free (h.mono free)

theorem modGrp (s : State) (g : Gid) (f : SchedGroup → SchedGroup) : Steady s (s.modGrp g f) :=
  ⟨rfl, rfl, rfl, rfl, fun _ => rfl, fun _ => rfl, fun _ => rfl, fun _ _ => rfl, .still rfl rfl rfl, fun _ => id⟩

theorem modRq (s : State) (f : Rq → Rq) : Steady s (s.modRq f) :=
  ⟨rfl, rfl, rfl, rfl, fun _ => rfl, fun _ => rfl, fun _ => rfl, fun _ _ => rfl, .still rfl rfl rfl, fun _ => id⟩

theorem emit (s : State) (ev : Event) : Steady s (s.emit ev) :=
  ⟨rfl, rfl, rfl, rfl, fun _ => rfl, fun _ => rfl, fun _ => rfl, fun _ _ => rfl, .still rfl rfl rfl, fun _ => id⟩

/-- A store to a thread may not touch its process, its class or that it has ended. -/
theorem modTd (s : State) (t : Tid) (f : Thread → Thread) (pid : (f (s.td t)).proc = (s.td t).proc)
    (priClass : (f (s.td t)).tdPriClass = (s.td t).tdPriClass)
    (exited : (f (s.td t)).exited = (s.td t).exited) : Steady s (s.modTd t f) where
  tun := rfl
  proc := rfl
  nprocs := rfl
  nthreads := rfl
  exited u := by
    by_cases same : u = t
    · subst same
      simpa [State.modTd] using exited
    · simp [State.modTd, same]
  pid u := by
    by_cases same : u = t
    · subst same
      simpa [State.modTd] using pid
    · simp [State.modTd, same]
  priClass u := by
    by_cases same : u = t
    · subst same
      simpa [State.modTd] using priClass
    · simp [State.modTd, same]
  load _ _ := rfl
  calls := .still rfl rfl rfl
  queues _ := id

theorem free_ticking : ticking ≤ Steady.free := fun c => by cases c <;> decide

/-- No time is a part of a weight. -/
theorem free_timing : timing ≤ Steady.free := fun c => by cases c <;> decide

/-- Neither is whether a thread is on the realtime queue. -/
theorem free_boosting : boosting ≤ Steady.free := fun c => by cases c <;> decide
theorem free_shelving : shelving ≤ Steady.free := fun c => by cases c <;> decide
theorem free_resetting : resetting ≤ Steady.free := fun c => by cases c <;> decide
theorem free_asking : asking ≤ Steady.free := fun c => by cases c <;> decide
theorem free_listing : listing ≤ Steady.free := fun c => by cases c <;> decide

/-- Nor the candidates. -/
theorem free_marking : marking ≤ Steady.free := fun c => by cases c <;> decide

end Steady

/-- An inverse that has been computed is not computed again. -/
theorem cacheInv_set {lw : LoadWeight} (set : lw.invWeight ≠ 0) : lw.cacheInv = lw := by
  simp [LoadWeight.cacheInv, set]

section
variable (s : State) (q : Gid) (e : EntId)

theorem updateRqClock_steady : Steady s (updateRqClock s) := .of_changes (updateRqClock_changes s) Steady.free_ticking

theorem updateSfqVtime_steady : Steady s (updateSfqVtime s q) := .of_changes (updateSfqVtime_changes s q) Steady.free_timing

/-- `scale_by_weight` keeps its inverse in the entity's load, where a thread has one already. -/
theorem scaleDelta_steady (d : Nat) : Steady s (scaleDelta s d e).2 := by
  unfold scaleDelta
  split
  · exact .refl s
  · dsimp only
    exact .modEnt _ _ _ (fun _ _ set => cacheInv_set set) rfl

/-- On the way up `sched_slice` keeps an inverse in every queue. -/
theorem schedSlice_steady : Steady s (schedSlice s q e).2 := by
  have level (slice : Nat) (s : State) (e : EntId) : Steady s (schedSliceLevel slice s e).2 := by
    unfold schedSliceLevel
    split
    · dsimp only
      exact .modSfq _ _ _ rfl (.scale _ slice (s.ent e).load.weight)
    · exact .refl s
  have fold (chain : List EntId) (acc : Nat × State) :
      Steady acc.2 (chain.foldl (fun acc se => schedSliceLevel acc.1 acc.2 se) acc).2 := by
    induction chain generalizing acc with
    | nil => exact .refl _
    | cons se rest ih => exact (level ..).trans (ih _)
  exact fold _ (_, s)

theorem placeEntity_steady : Steady s (placeEntity s q e) := .of_changes (placeEntity_changes s q e) Steady.free_timing

theorem addVtime_steady : Steady s (addVtime s q e) := .of_changes (addVtime_changes s q e) Steady.free_timing

theorem subVtime_steady : Steady s (subVtime s q e) := .of_changes (subVtime_changes s q e) Steady.free_timing

theorem resetUserPri_steady : Steady s (resetUserPri s e) := .of_changes (resetUserPri_changes s e) Steady.free_resetting

/-- A charge scales by the weight and stores times. -/
theorem chargeEntity_steady (d now : BitVec 64) : Steady s (chargeEntity s q e d now) := by
  unfold chargeEntity
  refine Steady.trans ?_ (updateSfqVtime_steady ..)
  refine Steady.trans (Steady.trans ?_ (Steady.modEnt _ _ _ ?_ rfl)) (.emit ..)
  · refine Steady.trans (Steady.modEnt _ _ _ ?_ rfl) (scaleDelta_steady ..)
    exact fun _ _ _ => rfl
  · exact fun _ _ _ => rfl

theorem updateCurr_steady : Steady s (updateCurr s q) := by
  unfold updateCurr
  split
  · exact .refl s
  · dsimp only
    split
    · exact resetUserPri_steady ..
    · exact (resetUserPri_steady ..).trans (chargeEntity_steady ..)

/-- An entity that joins adds its weight to its queue's load, and to nothing else a weight depends on. -/
theorem accountEntityEnqueue_steady : Steady s (accountEntityEnqueue s q e) := by
  have loaded : Steady s (s.modSfq q fun sfq => { sfq with load := loadAdd sfq.load (s.ent e).load.weight }) :=
    .modSfq _ _ _ rfl (.add _ _)
  unfold accountEntityEnqueue
  dsimp only
  refine Steady.trans ?_ (.modSfq _ _ _ rfl id)
  split
  · exact loaded.trans (.modRq ..)
  · exact loaded

/-- An entity that leaves takes its weight from the load again. -/
theorem accountEntityDequeue_steady : Steady s (accountEntityDequeue s q e) := by
  have unloaded (ev : Event) : Steady s ((s.emit ev).modSfq q fun sfq =>
      { sfq with load := loadSub sfq.load (s.ent e).load.weight }) :=
    Steady.trans (.emit ..) (.modSfq _ _ _ rfl (.sub _ _))
  unfold accountEntityDequeue
  dsimp only
  refine Steady.trans (Steady.trans ?_ (.emit ..)) (.modSfq _ _ _ rfl id)
  split
  · exact (unloaded _).trans (Steady.trans (.emit ..) (.modRq ..))
  · exact unloaded _

/-- The entity whose weight is set anew is a group's, never a thread's. -/
theorem updateEntityWeight_steady (g : Gid) (w : Nat) : Steady s (updateEntityWeight s q (.group g) w) := by
  have store (s : State) : Steady s (s.modEnt (.group g) fun ent => { ent with load := loadSet w }) :=
    .modEnt s _ _ (by simp) rfl
  have first : Steady s (if (s.sfq q).curr = some (.group g) then updateCurr s q else s) := by
    split
    · exact updateCurr_steady ..
    · exact .refl s
  unfold updateEntityWeight
  split
  · exact first.trans ((accountEntityDequeue_steady ..).trans ((store _).trans (accountEntityEnqueue_steady ..)))
  · exact store s

/-- The owner of a queue is a group, never a thread. -/
theorem updateSfqShares_steady (hier : s.view.Hier) (inside : q < s.ngroups) : Steady s (updateSfqShares s q) := by
  unfold updateSfqShares
  dsimp only
  split
  · exact .refl s
  · rename_i se owner
    obtain ⟨_, rfl⟩ := (hier.owner_entity inside).mp owner
    split
    · exact .refl s
    · exact updateEntityWeight_steady ..

theorem setTdState_steady (t : Tid) (st : TdState) : Steady s (setTdState s t st) :=
  .of_changes (setTdState_changes s t st) Steady.free_boosting

theorem reschedThread_steady (t : Tid) : Steady s (reschedThread s t) :=
  .of_changes (reschedThread_changes s t) Steady.free_asking

theorem runqAdd_steady (t : Tid) (head : Bool) : Steady s (runqAdd s t head) := by
  unfold runqAdd
  exact .modRq ..

theorem runqRemove_steady (t : Tid) : Steady s (runqRemove s t) := .modRq ..

theorem rawRunqEnqueue_steady {t : Tid} {flags : Nat} {s' : State} (run : rawRunqEnqueue s t flags = some s') :
    Steady s s' := .of_changes (rawRunqEnqueue_changes run) Steady.free_shelving

theorem rawRunqDequeue_steady (t : Tid) : Steady s (rawRunqDequeue s t) :=
  .of_changes (rawRunqDequeue_changes s t) Steady.free_shelving

theorem runqDequeueEntity_steady : Steady s (runqDequeueEntity s e) :=
  .of_changes (runqDequeueEntity_changes s e) Steady.free_shelving

/-- `set_runq` concerns the realtime queue. -/
theorem setRunq_steady {flags : Nat} {s' : State} (run : setRunq s e flags = some s') : Steady s s' :=
  .of_changes (setRunq_changes run) Steady.free_boosting

/-- Only the flag of one entity and a timeline are stored. -/
theorem Steady.of_raw {s' : State} (ent : ∀ x, (s'.ent x).load = (s.ent x).load) (calls : Calls s s')
    (queues : ∀ q, (s'.sfq q).load = (s.sfq q).load)
    (rest : (s'.tun, s'.proc, s'.nprocs, s'.nthreads, s'.td) = (s.tun, s.proc, s.nprocs, s.nthreads, s.td)) : Steady s s' := by
  simp only [Prod.mk.injEq] at rest
  obtain ⟨tun, proc, nprocs, nthreads, td⟩ := rest
  exact ⟨tun, proc, nprocs, nthreads, fun _ => by rw [td], fun _ => by rw [td], fun _ => by rw [td], fun t _ => ent _, calls,
    fun q kept => queues q ▸ kept⟩

/-- `__enqueue_entity` is one call of the timeline. -/
theorem rawEnqueueEntity_steady {s' : State} (run : rawEnqueueEntity s q e = some s') : Steady s s' := by
  have frame := rawEnqueueEntity_changes run
  have calls : Calls s s' := .enqueue run
  refine .of_raw s (fun x => ?_) calls (fun p => ?_) ?_
  · exact frame.read (fun s => (s.ent x).load) fun _ => rfl
  · exact frame.read (fun s => (s.sfq p).load) fun _ => rfl
  · unfold rawEnqueueEntity at run
    split at run
    · cases run
    · cases run
      rfl

/-- `__dequeue_entity` is one call of the timeline. -/
theorem rawDequeueEntity_steady {s' : State} (run : rawDequeueEntity s q e = some s') : Steady s s' := by
  have frame := rawDequeueEntity_changes run
  have calls : Calls s s' := .dequeue run
  refine .of_raw s (fun x => ?_) calls (fun p => ?_) ?_
  · exact frame.read (fun s => (s.ent x).load) fun _ => rfl
  · exact frame.read (fun s => (s.sfq p).load) fun _ => rfl
  · unfold rawDequeueEntity at run
    split at run
    · cases run
      rfl
    · cases run

theorem addLeafSfq_steady : Steady s (addLeafSfq s q) := .of_changes (addLeafSfq_changes s q) Steady.free_listing

theorem setSkipWalk_steady (chain : List EntId) : Steady s (setSkipWalk s chain) :=
  .of_changes (setSkipWalk_changes s chain) Steady.free_marking

theorem setNextCandidate_steady : Steady s (setNextCandidate s e) :=
  .of_changes (setNextCandidate_changes s e) Steady.free_marking

theorem setLastCandidate_steady : Steady s (setLastCandidate s e) :=
  .of_changes (setLastCandidate_changes s e) Steady.free_marking

theorem clearCandidates_steady : Steady s (clearCandidates s q e) :=
  .of_changes (clearCandidates_changes s e q) Steady.free_marking

end

section entities
variable {s s' : State} {q : Nat} {e : EntId} {flags : Nat}

theorem enqueueVruntime_steady : Steady s (enqueueVruntime s q e flags) := by
  unfold enqueueVruntime
  by_cases wakeup : flags &&& enqueueWakeup = 0
  · simp only [wakeup, if_true, ne_eq, not_true_eq_false, if_false]
    exact (addVtime_steady ..).trans (updateCurr_steady ..)
  · simp only [wakeup, if_false, ne_eq, not_false_eq_true, if_true]
    exact (updateCurr_steady ..).trans (placeEntity_steady ..)

/-- The shares that are brought up to date when an entity joins are those of the group above. -/
theorem enqueueAccount_steady (hier : s.view.Hier) (inside : q < s.ngroups) : Steady s (enqueueAccount s q e) := by
  have hier' : (accountEntityEnqueue s q e).view.Hier := by
    rw [accountEntityEnqueue_view]
    exact { hier with }
  have inside' : q < (accountEntityEnqueue s q e).ngroups := by
    simpa [accountEntityEnqueue_view] using inside
  unfold enqueueAccount
  dsimp only
  refine Steady.trans (Steady.trans ?_ (.emit ..)) (.modEnt _ _ _ ?_ rfl)
  · have both := (accountEntityEnqueue_steady s q e).trans (updateSfqShares_steady _ q hier' inside')
    split
    · exact both.trans (addLeafSfq_steady ..)
    · exact both
  · exact fun _ _ _ => rfl

/-- An entity that is queued changes no thread's weight. -/
theorem enqueueEntity_steady (hier : s.view.Hier) (inside : q < s.ngroups)
    (run : enqueueEntity s q e flags = some s') : Steady s s' := by
  obtain ⟨_, a, b, first, second, rfl⟩ := enqueueEntity_parts run
  obtain ⟨⟨boosted, _, look⟩, _⟩ := setRunq_spec (by simpa using hier) first
  obtain ⟨_, look', _⟩ := rawEnqueueEntity_spec _ _ _ second
  rw [look, enqueueVruntime_view] at look'
  have hier' : b.view.Hier := by
    rw [look']
    exact { hier with }
  have inside' : q < b.ngroups := by
    simpa [look', View.runnable] using inside
  exact (enqueueVruntime_steady.trans (setRunq_steady _ _ first)).trans
    ((rawEnqueueEntity_steady _ _ _ second).trans (enqueueAccount_steady hier' inside'))

theorem dequeueClear_steady : Steady s (dequeueClear s q e) :=
  ((updateCurr_steady ..).trans (runqDequeueEntity_steady ..)).trans (clearCandidates_steady ..)

/-- The shares that are brought up to date when an entity leaves are those of the group above. -/
theorem dequeueAccount_steady (hier : s.view.Hier) (inside : q < s.ngroups) :
    Steady s (dequeueAccount s q e flags) := by
  have left : Steady s (dequeueLeave s q e flags) := by
    have account : Steady s (((accountEntityDequeue s q e).emit (.leave q e)).modEnt e fun ent =>
        { ent with joined := false }) := by
      refine Steady.trans (Steady.trans (accountEntityDequeue_steady ..) (.emit ..)) (.modEnt _ _ _ ?_ rfl)
      exact fun _ _ _ => rfl
    unfold dequeueLeave
    dsimp only
    split
    · exact account.trans (subVtime_steady ..)
    · exact account
  refine (left.trans (updateSfqVtime_steady _ q)).trans (updateSfqShares_steady _ q ?_ ?_)
  · rw [updateSfqVtime_view, dequeueLeave_view]
    exact { hier with }
  · simpa [dequeueLeave_view, View.setJoined, View.unaccount] using inside

/-- An entity that is taken off its queue changes no thread's weight. -/
theorem dequeueEntity_steady {L : List EntId} (core : s.view.Core L) (inside : q < s.ngroups)
    (run : dequeueEntity s q e flags = some s') : Steady s s' := by
  by_cases joined : s.view.joined e
  · obtain ⟨a, first, rfl⟩ := dequeueEntity_parts run joined
    have look := dequeueClear_view (q := q) (e := e) core
    have cleared : Steady s a ∧ a.view.Hier ∧ q < a.ngroups := by
      split at first
      · obtain ⟨_, look', _⟩ := rawDequeueEntity_spec _ _ _ first
        rw [look] at look'
        refine ⟨dequeueClear_steady.trans (rawDequeueEntity_steady _ _ _ first), ?_, ?_⟩
        · rw [look']
          exact { core.hier with }
        · simpa [look', View.unboosted] using inside
      · cases first
        refine ⟨dequeueClear_steady, ?_, ?_⟩
        · rw [look]
          exact { core.hier with }
        · simpa [look, View.unboosted] using inside
    exact cleared.1.trans (dequeueAccount_steady cleared.2.1 cleared.2.2)
  · rw [dequeueEntity_apart run (by simpa using joined)]
    exact .refl s

theorem putPrevCharge_steady : Steady s (putPrevCharge s q e flags) := by
  unfold putPrevCharge
  refine Steady.trans ?_ (updateCurr_steady ..)
  split
  · exact setSkipWalk_steady ..
  · exact .refl s

theorem putPrevRelease_steady : Steady s (putPrevRelease s q e) := by
  unfold putPrevRelease
  exact Steady.trans (.emit ..) (.modSfq _ _ _ rfl id)

/-- The entity that had the CPU goes back to its timeline with the weight it had. -/
theorem putPrevEntity_steady (run : putPrevEntity s q e flags = some s') : Steady s s' := by
  rcases putPrevEntity_parts run with ⟨_, rfl⟩ | ⟨_, a, b, first, second, rfl⟩
  · exact putPrevRelease_steady
  · exact (putPrevCharge_steady.trans (setRunq_steady _ _ first)).trans
      ((rawEnqueueEntity_steady _ _ _ second).trans putPrevRelease_steady)

/-- The entity that gets the CPU leaves its timeline with the weight it had. -/
theorem activateEntity_steady (run : activateEntity s q e = some s') : Steady s s' := by
  obtain ⟨_, a, first, _, rfl⟩ := activateEntity_parts run
  refine ((runqDequeueEntity_steady ..).trans (rawDequeueEntity_steady _ _ _ first)).trans ?_
  unfold activateStart
  refine Steady.trans (Steady.trans (.emit ..) (.modSfq _ _ _ rfl id)) (.modEnt _ _ _ ?_ rfl)
  exact fun _ _ _ => rfl

end entities

end SfqSched
