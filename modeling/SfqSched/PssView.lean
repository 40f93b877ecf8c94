import SfqSched.CandidateView
import SfqSched.Hierarchy

namespace SfqSched
open State Function

namespace View

/-- A thread becomes runnable, and takes a place on the realtime queue if it is boosted. -/
def runnable (v : View) (e : EntId) (boosted : Bool) : View :=
  { v with
    tdState := fun u => if e = .thread u then .runq else v.tdState u
    realtime := fun u => (boosted ∧ e = .thread u) ∨ v.realtime u
    onRunq := if boosted then update v.onRunq e true else v.onRunq }

/-- A thread leaves the realtime queue. -/
def unboosted (v : View) (e : EntId) : View :=
  { v with
    realtime := fun u => e ≠ .thread u ∧ v.realtime u
    onRunq := update v.onRunq e false }

def enter (v : View) (q : Nat) (e : EntId) : View :=
  { v with
    timeline := update v.timeline q (e ::ₘ v.timeline q)
    onSfq := update v.onSfq e true }

def withdraw (v : View) (q : Nat) (e : EntId) : View :=
  { v with
    timeline := update v.timeline q ((v.timeline q).erase e)
    onSfq := update v.onSfq e false }

def account (v : View) (q : Nat) (e : EntId) : View :=
  { v with
    nr := update v.nr q (v.nr q + 1)
    qweight := update v.qweight q (v.qweight q + v.weight e)
    rqWeight := if v.parent e = none then v.rqWeight + v.weight e else v.rqWeight }

def unaccount (v : View) (q : Nat) (e : EntId) : View :=
  { v with
    nr := update v.nr q (v.nr q - 1)
    qweight := update v.qweight q (v.qweight q - v.weight e)
    rqWeight := if v.parent e = none then v.rqWeight - v.weight e else v.rqWeight }

def setJoined (v : View) (e : EntId) (joined : Bool) : View := { v with joined := update v.joined e joined }
def setCurr (v : View) (q : Nat) (curr : Option EntId) : View := { v with curr := update v.curr q curr }

end View

section
variable {s s' : State} {q : Nat} {e : EntId} {flags : Nat}

/-- By the hierarchy a thread's entity owns no queue. -/
theorem seToTd_thread (hier : s.view.Hier) (t : Tid) : seToTd s (.thread t) = some t := by
  have free : (s.ent (.thread t)).myQ = none := hier.threadQ t
  simp only [seToTd, free]

theorem seToTd_group (g : Gid) : seToTd s (.group g) = none := by
  unfold seToTd
  split <;> simp_all

/-- The state of a thread is in the view. -/
@[simp] theorem setTdState_view (t : Tid) (st : TdState) :
    (setTdState s t st).view = { s.view with tdState := update s.view.tdState t st } := by
  simp [setTdState, view_modTd]

@[simp] theorem setTdState_books (t : Tid) (st : TdState) : (setTdState s t st).books = s.books := rfl

@[simp] theorem reschedThread_view (t : Tid) : (reschedThread s t).view = s.view := (reschedThread_changes s t).view asking_view

@[simp] theorem reschedThread_books (t : Tid) : (reschedThread s t).books = s.books := rfl

/-- A thread is runnable from here on, and boosted if its priority is; a group is not. -/
theorem setRunq_spec (hier : s.view.Hier) (run : setRunq s e flags = some s') :
    (∃ boosted : Bool, (boosted → ∃ t, e = .thread t) ∧ s'.view = s.view.runnable e boosted) ∧ s'.books = s.books := by
  unfold setRunq at run
  cases e with
  | group g =>
    simp only [seToTd_group] at run
    cases run
    exact ⟨⟨false, by simp, by simp [View.runnable]⟩, rfl⟩
  | thread t =>
    have state : update s.view.tdState t .runq = fun u => if t = u then .runq else s.view.tdState u := by
      funext u
      simp only [update_apply, eq_comm]
    simp only [seToTd_thread hier] at run
    split at run
    · obtain ⟨look, books⟩ := rawRunqEnqueue_spec _ _ run
      refine ⟨⟨true, by simp, ?_⟩, by simp [books]⟩
      simp [look, View.runnable, View.boost, state, @eq_comm _ t]
    · cases run
      exact ⟨⟨false, by simp, by simp [View.runnable, state]⟩, rfl⟩

/-- `seToTd` guards the dequeue from the realtime queue in the two entity functions that take one off. -/
def runqDequeueEntity (s : State) (e : EntId) : State :=
  match seToTd s e with
  | some t => rawRunqDequeue s t
  | none => s

/-- The boost ends, if there was one. -/
theorem runqDequeueEntity_view {L : List EntId} (core : s.view.Core L) :
    (runqDequeueEntity s e).view = s.view.unboosted e := by
  have off {x : EntId} (absent : s.view.onRunq x = false) : s.view.unboosted x = s.view := by
    have stays : update s.view.onRunq x false = s.view.onRunq := by rw [← absent, update_eq_self]
    have out (u : Tid) (on_it : s.view.realtime u) : x ≠ .thread u := by
      rintro rfl
      simp [core.realtime u on_it] at absent
    have same : (fun u => x ≠ .thread u ∧ s.view.realtime u) = s.view.realtime := by
      funext u
      exact propext ⟨And.right, fun on_it => ⟨out u on_it, on_it⟩⟩
    simp only [View.unboosted, stays, same]
  unfold runqDequeueEntity
  cases e with
  | group g =>
    have absent : s.view.onRunq (.group g) = false := by
      by_contra there
      obtain ⟨_, t, never⟩ := core.onRunq (.group g) (by simpa using there)
      cases never
    simp only [seToTd_group, off absent]
  | thread t =>
    simp only [seToTd_thread core.hier, rawRunqDequeue_view]
    split
    · simp [View.unboost, View.unboosted, eq_comm]
    · rename_i absent
      exact (off (by simpa using absent)).symm

@[simp] theorem runqDequeueEntity_books : (runqDequeueEntity s e).books = s.books := by
  unfold runqDequeueEntity
  split <;> simp

@[simp] theorem addLeafSfq_view : (addLeafSfq s q).view = s.view := (addLeafSfq_changes s q).view listing_view

@[simp] theorem addLeafSfq_books : (addLeafSfq s q).books = s.books := (addLeafSfq_changes s q).books listing_books

/-- The first part of `enqueue_entity`: the entity gets its vruntime. -/
def enqueueVruntime (s : State) (q : Gid) (se : EntId) (flags : Nat) : State :=
  let s := if flags &&& enqueueWakeup = 0 then addVtime s q se else s
  let s := updateCurr s q
  if flags &&& enqueueWakeup ≠ 0 then placeEntity s q se else s

/-- The last part of `enqueue_entity`: the entity is accounted for. -/
def enqueueAccount (s : State) (q : Gid) (se : EntId) : State :=
  let s := accountEntityEnqueue s q se
  let s := updateSfqShares s q
  let s := if (s.sfq q).nrRunning = 1 then addLeafSfq s q else s
  (s.emit (.join q se)).modEnt se fun ent => { ent with joined := true }

/-- No vruntime is in the view. -/
@[simp] theorem enqueueVruntime_view : (enqueueVruntime s q e flags).view = s.view := by
  unfold enqueueVruntime
  dsimp only
  split_ifs <;> simp

/-- The entity is counted, the shares above follow, and it is joined. -/
theorem enqueueAccount_view :
    (enqueueAccount s q e).view = ((s.view.account q e).reshare q).setJoined e true := by
  unfold enqueueAccount
  dsimp only
  split_ifs <;>
    simp [view_modEnt, updateSfqShares_view, accountEntityEnqueue_view, View.account, View.setJoined]

/-- What a successful `enqueue_entity` did, part by part. -/
theorem enqueueEntity_parts (run : enqueueEntity s q e flags = some s') :
    s.view.joined e = false ∧ ∃ a b, setRunq (enqueueVruntime s q e flags) e flags = some a ∧
      rawEnqueueEntity a q e = some b ∧ s' = enqueueAccount b q e := by
  unfold enqueueEntity at run
  split at run
  · cases run
  · rename_i apart
    obtain ⟨a, first, run⟩ := Option.bind_eq_some_iff.mp run
    obtain ⟨b, second, run⟩ := Option.bind_eq_some_iff.mp run
    exact ⟨by simpa using apart, a, b, first, second, (Option.some.inj run).symm⟩

/-- Runnable, queued, counted and joined: `enqueue_entity` as the view shows it. -/
theorem enqueueEntity_view (hier : s.view.Hier) (run : enqueueEntity s q e flags = some s') :
    ∃ boosted : Bool, (boosted → ∃ t, e = .thread t) ∧ s'.view =
      ((((s.view.runnable e boosted).enter q e).account q e).reshare q).setJoined e true := by
  obtain ⟨_, a, b, first, second, rfl⟩ := enqueueEntity_parts run
  obtain ⟨⟨boosted, only, look⟩, _⟩ := setRunq_spec (by simpa using hier) first
  obtain ⟨_, look', _⟩ := rawEnqueueEntity_spec _ _ _ second
  refine ⟨boosted, only, ?_⟩
  rw [enqueueAccount_view, look', look, enqueueVruntime_view]
  rfl

/-- The first part of `dequeue_entity`: time is charged and pointers are cleared. -/
def dequeueClear (s : State) (q : Gid) (se : EntId) : State :=
  clearCandidates (runqDequeueEntity (updateCurr s q) se) q se

/-- The middle part of `dequeue_entity`: the entity leaves the accounts. -/
def dequeueLeave (s : State) (q : Gid) (se : EntId) (flags : Nat) : State :=
  let s := accountEntityDequeue s q se
  let s := (s.emit (.leave q se)).modEnt se fun ent => { ent with joined := false }
  if flags &&& dequeueSleep = 0 then subVtime s q se else s

def dequeueAccount (s : State) (q : Gid) (se : EntId) (flags : Nat) : State :=
  updateSfqShares (updateSfqVtime (dequeueLeave s q se flags) q) q

/-- Before it leaves its queue an entity loses its boost and its candidacies, which the view does not show. -/
theorem dequeueClear_view {L : List EntId} (core : s.view.Core L) :
    (dequeueClear s q e).view = s.view.unboosted e := by
  rw [dequeueClear, clearCandidates_view, runqDequeueEntity_view (L := L) (by simpa using core), updateCurr_view]

theorem dequeueLeave_view :
    (dequeueLeave s q e flags).view = (s.view.unaccount q e).setJoined e false := by
  unfold dequeueLeave
  dsimp only
  split_ifs <;> simp [view_modEnt, accountEntityDequeue_view, View.unaccount, View.setJoined]

/-- The entity is uncounted, is joined no longer, and the shares above follow. -/
theorem dequeueAccount_view :
    (dequeueAccount s q e flags).view = ((s.view.unaccount q e).setJoined e false).reshare q := by
  rw [dequeueAccount, updateSfqShares_view, updateSfqVtime_view, dequeueLeave_view]

/-- What a successful `dequeue_entity` of a joined entity did, part by part. -/
theorem dequeueEntity_parts (run : dequeueEntity s q e flags = some s') (joined : s.view.joined e) :
    ∃ a, (if (dequeueClear s q e).view.onSfq e then rawDequeueEntity (dequeueClear s q e) q e
        else some (dequeueClear s q e)) = some a ∧ s' = dequeueAccount a q e flags := by
  unfold dequeueEntity at run
  rw [if_pos (show (s.ent e).joined = true from joined)] at run
  change (if (dequeueClear s q e).view.onSfq e then _ else _) = _ at run
  split at run
  · rename_i there
    obtain ⟨a, first, run⟩ := Option.bind_eq_some_iff.mp run
    exact ⟨a, (if_pos there).trans first, (Option.some.inj run).symm⟩
  · rename_i absent
    exact ⟨dequeueClear s q e, if_neg absent, (Option.some.inj run).symm⟩

/-- An entity that is not joined is left alone. -/
theorem dequeueEntity_apart (run : dequeueEntity s q e flags = some s') (apart : s.view.joined e = false) :
    s' = s := by
  unfold dequeueEntity at run
  simp only [view_joined, apart] at run
  split at run
  · contradiction
  · split at run
    · cases run
    · exact (Option.some.inj run).symm

/-- There is nothing to withdraw where the entity is in no timeline, as that of a running thread. -/
theorem withdraw_absent {v : View} {L : List EntId} (core : v.Core L) (absent : v.onSfq e = false) :
    v.withdraw q e = v := by
  have stays : update v.onSfq e false = v.onSfq := by rw [← absent, update_eq_self]
  have out : e ∉ v.timeline q := by
    intro member
    obtain ⟨_, _, rfl⟩ := core.member q e member
    simp [(core.onSfq e).mpr member] at absent
  simp [View.withdraw, stays, Multiset.erase_of_notMem out]

/-- An entity that is in no timeline changes nothing when it is withdrawn. -/
theorem dequeueClear_off {a : State} {L : List EntId} (core : s.view.Core L)
    (first : (if (dequeueClear s q e).view.onSfq e then rawDequeueEntity (dequeueClear s q e) q e
      else some (dequeueClear s q e)) = some a) : a.view = (s.view.unboosted e).withdraw q e := by
  split at first
  · obtain ⟨_, look, _⟩ := rawDequeueEntity_spec _ _ _ first
    rw [look, dequeueClear_view core]
    rfl
  · rename_i absent
    cases first
    rw [dequeueClear_view core] at absent ⊢
    have stays : (s.view.withdraw q e).timeline = s.view.timeline ∧ (s.view.withdraw q e).onSfq = s.view.onSfq := by
      rw [withdraw_absent core (by simpa [View.unboosted] using absent)]
      exact ⟨rfl, rfl⟩
    simp only [View.withdraw, View.unboosted] at stays ⊢
    simp only [stays]

/-- Unboosted, withdrawn, uncounted and no longer joined: `dequeue_entity` as the view shows it. -/
theorem dequeueEntity_view {L : List EntId} (core : s.view.Core L) (run : dequeueEntity s q e flags = some s')
    (joined : s.view.joined e) :
    s'.view =
      ((((s.view.unboosted e).withdraw q e).unaccount q e).setJoined e false).reshare q := by
  obtain ⟨a, first, rfl⟩ := dequeueEntity_parts run joined
  rw [dequeueAccount_view, dequeueClear_off core first]

/-- The first part of `put_prev_entity` for a joined entity. -/
def putPrevCharge (s : State) (q : Gid) (se : EntId) (flags : Nat) : State :=
  updateCurr
    (if (seToTd s se).isSome ∧ flags &&& swTypeMask = swtRelinquish then setSkipCandidate s se else s) q

/-- The end of `put_prev_entity`. -/
def putPrevRelease (s : State) (q : Gid) (se : EntId) : State :=
  (s.emit (.release q se s.rq.clockThread)).modSfq q fun sfq => { sfq with curr := none }

@[simp] theorem putPrevCharge_view : (putPrevCharge s q e flags).view = s.view := by
  unfold putPrevCharge setSkipCandidate
  split_ifs <;> simp

theorem putPrevRelease_view : (putPrevRelease s q e).view = s.view.setCurr q none := by
  simp [putPrevRelease, view_modSfq, View.setCurr]

/-- The three parts of `put_prev_entity`, for an entity that is joined. -/
theorem putPrevEntity_parts (run : putPrevEntity s q e flags = some s') :
    (s.view.joined e = false ∧ s' = putPrevRelease s q e) ∨
      (s.view.joined e ∧ ∃ a b, setRunq (putPrevCharge s q e flags) e flags = some a ∧
        rawEnqueueEntity a q e = some b ∧ s' = putPrevRelease b q e) := by
  unfold putPrevEntity at run
  dsimp only at run
  split at run
  · rename_i joined
    obtain ⟨a, first, run⟩ := Option.bind_eq_some_iff.mp run
    obtain ⟨b, second, run⟩ := Option.bind_eq_some_iff.mp run
    exact .inr ⟨joined, a, b, first, second, (Option.some.inj run).symm⟩
  · rename_i apart
    exact .inl ⟨by simpa using apart, (Option.some.inj run).symm⟩

/-- A joined entity is runnable and queued again; any entity is current no longer. -/
theorem putPrevEntity_view (hier : s.view.Hier) (run : putPrevEntity s q e flags = some s') :
    (s.view.joined e = false ∧ s'.view = s.view.setCurr q none) ∨
      (s.view.joined e ∧ s.view.onSfq e = false ∧
        ∃ boosted : Bool, (boosted → ∃ t, e = .thread t) ∧
          s'.view = ((s.view.runnable e boosted).enter q e).setCurr q none) := by
  rcases putPrevEntity_parts run with ⟨apart, rfl⟩ | ⟨joined, a, b, first, second, rfl⟩
  · exact .inl ⟨apart, putPrevRelease_view⟩
  · obtain ⟨⟨boosted, only, look⟩, _⟩ := setRunq_spec (by simpa using hier) first
    obtain ⟨free, look', _⟩ := rawEnqueueEntity_spec _ _ _ second
    refine .inr ⟨joined, ?_, boosted, only, ?_⟩
    · rw [look, putPrevCharge_view] at free
      exact free
    · rw [putPrevRelease_view, look', look, putPrevCharge_view]
      rfl

/-- The end of `activate_entity`. -/
def activateStart (s : State) (q : Gid) (se : EntId) : State :=
  ((s.emit (.activate q se s.rq.clockThread)).modSfq q fun sfq => { sfq with curr := some se }).modEnt se
    fun ent => { ent with timingStart := s.rq.clockThread, prevSumExecTime := ent.sumExecTime }

theorem activateStart_view : (activateStart s q e).view = s.view.setCurr q (some e) := by
  simp [activateStart, view_modEnt, view_modSfq, View.setCurr]

/-- The parts of `activate_entity`, with the assertions it makes. -/
theorem activateEntity_parts (run : activateEntity s q e = some s') :
    s.view.joined e ∧ ∃ a, rawDequeueEntity (runqDequeueEntity s e) q e = some a ∧
      a.view.curr q = none ∧ s' = activateStart a q e := by
  unfold activateEntity at run
  split at run
  · rename_i joined
    obtain ⟨a, first, run⟩ := Option.bind_eq_some_iff.mp run
    refine ⟨joined, a, first, ?_⟩
    split at run
    · rename_i vacant
      exact ⟨vacant, (Option.some.inj run).symm⟩
    · cases run
  · cases run

/-- An entity that gets the CPU was joined and queued, on a queue without a current one. -/
theorem activateEntity_view {L : List EntId} (core : s.view.Core L) (run : activateEntity s q e = some s') :
    s.view.joined e ∧ s.view.onSfq e ∧ s.view.curr q = none ∧
      s'.view = ((s.view.unboosted e).withdraw q e).setCurr q (some e) := by
  obtain ⟨joined, a, first, vacant, rfl⟩ := activateEntity_parts run
  obtain ⟨there, look, _⟩ := rawDequeueEntity_spec _ _ _ first
  rw [runqDequeueEntity_view core] at look there
  rw [look] at vacant
  rw [activateStart_view, look]
  exact ⟨joined, there, vacant, rfl⟩

end
end SfqSched
