import SfqSched.Membership

namespace SfqSched
open State Function

/-- A thread that is current nowhere and above no entity. -/
structure View.Apart (v : View) (t : Nat) : Prop where
  curr : ∀ q, v.curr q ≠ some (.thread t)
  parent : ∀ e, v.parent e ≠ some (.thread t)
  groupSe : ∀ g, v.groupSe g ≠ some (.thread t)

/-- A thread that was never added. -/
structure View.Unstarted (v : View) (t : Nat) : Prop extends v.Apart t where
  inside : t < v.nthreads
  initial : v.initial (.thread t) = true
  joined : v.joined (.thread t) = false
  rests : v.resting t
  busy : v.cls t ≠ .idle
  idleTd : v.idleTd t = false

/-- All a view shows of a thread that has not started. -/
structure View.Spot where
  nthreads : Nat
  initial : Bool
  joined : Bool
  tdState : TdState
  cls : SchedClass
  idleTd : Bool
  curr : Nat → Option EntId
  parent : EntId → Option EntId
  groupSe : Nat → Option EntId

def View.spot (v : View) (t : Nat) : View.Spot :=
  ⟨v.nthreads, v.initial (.thread t), v.joined (.thread t), v.tdState t, v.cls t, v.idleTd t, v.curr, v.parent,
    v.groupSe⟩

section congr
variable {v v' : View} {t : Nat}

theorem View.Apart.congr (h : v.Apart t) (curr : v'.curr = v.curr) (parent : v'.parent = v.parent)
    (groupSe : v'.groupSe = v.groupSe) : v'.Apart t :=
  ⟨curr ▸ h.curr, parent ▸ h.parent, groupSe ▸ h.groupSe⟩

/-- A spot says all there is to having started or not. -/
theorem View.Unstarted.congr (h : v.Unstarted t) (same : v'.spot t = v.spot t) : v'.Unstarted t := by
  simp only [View.spot, View.Spot.mk.injEq] at same
  obtain ⟨nthreads, initial, joined, tdState, cls, idleTd, curr, parent, groupSe⟩ := same
  refine ⟨h.toApart.congr curr parent groupSe, ?_, ?_, ?_, ?_, ?_, ?_⟩
  · exact nthreads ▸ h.inside
  · exact initial.trans h.initial
  · exact joined.trans h.joined
  · unfold View.resting
    rw [tdState]
    exact h.rests
  · exact cls ▸ h.busy
  · exact idleTd.trans h.idleTd

end congr

/-- What a step is asked to keep: that the thread stays apart and, if it is new, unstarted. -/
def View.spared (v : View) (new : Prop) (t : Nat) : Prop := v.Apart t ∧ (new → v.Unstarted t)

/-- Steps that leave a thread and its vruntime alone. -/
structure Spares (new : Prop) (t : Tid) (s s' : State) : Prop where
  kept : s.view.spared new t →
    s'.view.spared new t ∧ s'.books.vruntime (.thread t) = s.books.vruntime (.thread t)

namespace Spares
variable {new : Prop} {t : Tid} {s s' s'' : State}

theorem refl (s : State) : Spares new t s s := ⟨fun before => ⟨before, rfl⟩⟩

theorem trans (h : Spares new t s s') (h' : Spares new t s' s'') : Spares new t s s'' := by
  refine ⟨fun before => ?_⟩
  obtain ⟨middle, first⟩ := h.kept before
  obtain ⟨after, second⟩ := h'.kept middle
  exact ⟨after, second.trans first⟩

/-- What spares a thread leaves it unstarted, with the vruntime it had. -/
theorem unstarted (h : Spares True t s s') (before : s.view.Unstarted t) :
    s'.view.Unstarted t ∧ s'.books.vruntime (.thread t) = s.books.vruntime (.thread t) := by
  obtain ⟨⟨_, after⟩, vruntime⟩ := h.kept ⟨before.toApart, fun _ => before⟩
  exact ⟨after trivial, vruntime⟩

/-- For a thread that has not started it is enough to follow that. -/
theorem of_unstarted (h : s.view.Unstarted t →
    s'.view.Unstarted t ∧ s'.books.vruntime (.thread t) = s.books.vruntime (.thread t)) : Spares True t s s' := by
  refine ⟨fun before => ?_⟩
  obtain ⟨after, vruntime⟩ := h (before.2 trivial)
  exact ⟨⟨after.toApart, fun _ => after⟩, vruntime⟩

/-- What a step spares may depend on the thread not having started. -/
theorem given (h : s.view.Unstarted t → Spares True t s s') : Spares True t s s' :=
  .of_unstarted fun before => (h before).unstarted before

/-- A thread that is no longer new only has to stay apart. -/
theorem started (curr : s'.view.curr = s.view.curr) (parent : s'.view.parent = s.view.parent)
    (groupSe : s'.view.groupSe = s.view.groupSe)
    (vruntime : s'.books.vruntime (.thread t) = s.books.vruntime (.thread t)) : Spares False t s s' :=
  ⟨fun before => ⟨⟨before.1.congr curr parent groupSe, False.elim⟩, vruntime⟩⟩

/-- A function spares a thread whose spot and vruntime it leaves. -/
theorem spot (same : s'.view.spot t = s.view.spot t)
    (vruntime : s'.books.vruntime (.thread t) = s.books.vruntime (.thread t)) : Spares new t s s' := by
  refine ⟨fun before => ⟨⟨?_, fun isNew => (before.2 isNew).congr same⟩, vruntime⟩⟩
  simp only [View.spot, View.Spot.mk.injEq] at same
  obtain ⟨_, _, _, _, _, _, curr, parent, groupSe⟩ := same
  exact before.1.congr curr parent groupSe

theorem same (view : s'.view = s.view) (books : s'.books = s.books) : Spares new t s s' :=
  .spot (by rw [view]) (by rw [books])

theorem unseen (h : Unseen s s') : Spares new t s s' := .same h.1 h.2.1

theorem marked {ok : Gid → EntId → Prop} (view : s'.view = s.view) (h : s.books.Marked ok s'.books) : Spares new t s s' := by
  refine .spot (by rw [view]) ?_
  rw [h.rest]

/-- A store into an entity that does not show, unless the entity is the thread's. -/
theorem modEnt (e : EntId) (f : SchedEntity → SchedEntity)
    (keeps : (f (s.ent e)).initial = (s.ent e).initial ∧ (f (s.ent e)).joined = (s.ent e).joined ∧
      (f (s.ent e)).parent = (s.ent e).parent ∧ (f (s.ent e)).vruntime = (s.ent e).vruntime) :
    Spares new t s (s.modEnt e f) := by
  obtain ⟨initial, joined, parent, vruntime⟩ := keeps
  refine .spot ?_ ?_
  · simp [view_modEnt, View.spot, initial, joined, parent]
  · simp [books_modEnt, vruntime]

/-- The state of another thread is not in the spot of this one. -/
theorem setTdState {u : Tid} (other : u ≠ t) (st : TdState) : Spares new t s (setTdState s u st) := by
  refine .spot ?_ rfl
  simp [View.spot, other.symm]

end Spares

section entities
variable {new : Prop} {s s' : State} {q : Gid} {e : EntId} {t : Tid} {flags : Nat}

theorem updateRqClock_spares (s : State) : Spares new t s (updateRqClock s) := .spot rfl rfl

/-- Only a current entity is charged, and a thread that has not started is not current. -/
theorem updateCurr_spares (s : State) (q : Gid) : Spares new t s (updateCurr s q) := by
  refine ⟨fun before => ⟨by simpa using before, ?_⟩⟩
  rcases updateCurr_books s q with ⟨still, _⟩ | ⟨c, w, current, _, paid⟩
  · rw [still]
  · have other : .thread t ≠ c := by
      rintro rfl
      exact before.1.curr q current
    rw [paid]
    exact update_of_ne other ..

theorem updateSfqVtime_spares (s : State) (q : Gid) : Spares new t s (updateSfqVtime s q) := .same (by simp) (by simp)

/-- Vruntimes are moved one entity at a time. -/
theorem addVtime_spares (apart : e ≠ .thread t) : Spares new t s (addVtime s q e) := by
  refine .spot (by simp) ?_
  rw [addVtime_books]
  exact update_of_ne apart.symm ..

theorem subVtime_spares (apart : e ≠ .thread t) : Spares new t s (subVtime s q e) := by
  refine .spot (by simp) ?_
  rw [subVtime_books]
  exact update_of_ne apart.symm ..

theorem placeEntity_spares (apart : e ≠ .thread t) : Spares new t s (placeEntity s q e) := by
  obtain ⟨v, placed⟩ := placeEntity_books s q e
  refine .spot (by simp) ?_
  rw [placed]
  exact update_of_ne apart.symm ..

theorem accountEntityEnqueue_spares : Spares new t s (accountEntityEnqueue s q e) :=
  .spot (by rw [accountEntityEnqueue_view]; rfl) (by simp)

theorem accountEntityDequeue_spares : Spares new t s (accountEntityDequeue s q e) :=
  .spot (by rw [accountEntityDequeue_view]; rfl) (by rw [accountEntityDequeue_books])

/-- A weight is not in a spot. -/
theorem updateEntityWeight_spares (w : Nat) : Spares new t s (updateEntityWeight s q e w) := by
  have stored (s : State) : Spares new t s (s.modEnt e fun ent => { ent with load := loadSet w }) :=
    .modEnt _ _ ⟨rfl, rfl, rfl, rfl⟩
  have first : Spares new t s (if (s.sfq q).curr = some e then updateCurr s q else s) := by
    split
    · exact updateCurr_spares ..
    · exact .refl s
  unfold updateEntityWeight
  split
  · exact first.trans (accountEntityDequeue_spares.trans ((stored _).trans accountEntityEnqueue_spares))
  · exact stored s

theorem updateSfqShares_spares (s : State) (q : Gid) : Spares new t s (updateSfqShares s q) := by
  unfold updateSfqShares
  dsimp only
  split
  · exact .refl s
  · split
    · exact .refl s
    · exact updateEntityWeight_spares _

theorem updateSharesWalk_spares (s : State) (chain : List EntId) : Spares new t s (updateSharesWalk s chain) := by
  induction chain generalizing s with
  | nil => exact .refl s
  | cons se rest ih => exact (updateSfqShares_spares ..).trans (ih _)

/-- Another entity is another thread's, or no thread's. -/
theorem seToTd_apart {u : Tid} (apart : e ≠ .thread t) (found : seToTd s e = some u) : u ≠ t := by
  rintro rfl
  unfold seToTd at found
  split at found
  · cases found
    exact apart rfl
  · cases found

theorem rawRunqEnqueue_spares {u : Tid} (run : rawRunqEnqueue s u flags = some s') : Spares new t s s' := by
  obtain ⟨look, books⟩ := rawRunqEnqueue_spec _ _ run
  exact .spot (by rw [look]; rfl) (by rw [books])

/-- Only the thread of the entity becomes runnable. -/
theorem setRunq_spares (apart : e ≠ .thread t) (run : setRunq s e flags = some s') : Spares new t s s' := by
  unfold setRunq at run
  split at run
  next u found =>
    have state : Spares new t s (setTdState s u .runq) := .setTdState (seToTd_apart apart found) _
    dsimp only at run
    split at run
    · exact state.trans (rawRunqEnqueue_spares run)
    · cases run
      exact state
  next =>
    cases run
    exact .refl s

/-- Timelines are not in a spot: what joins a queue is. -/
theorem rawEnqueueEntity_spares (run : rawEnqueueEntity s q e = some s') : Spares new t s s' := by
  obtain ⟨_, look, _, _, _, new, _⟩ := rawEnqueueEntity_spec _ _ _ run
  exact .spot (by rw [look]; rfl) (by rw [new])

theorem rawDequeueEntity_spares (run : rawDequeueEntity s q e = some s') : Spares new t s s' := by
  obtain ⟨_, look, new⟩ := rawDequeueEntity_spec _ _ _ run
  exact .spot (by rw [look]; rfl) (by rw [new])

theorem rawRunqDequeue_spares {u : Tid} : Spares new t s (rawRunqDequeue s u) := by
  refine .spot ?_ (by simp)
  rw [rawRunqDequeue_view]
  split <;> rfl

theorem runqDequeueEntity_spares : Spares new t s (runqDequeueEntity s e) := by
  unfold runqDequeueEntity
  split
  · exact rawRunqDequeue_spares
  · exact .refl s

theorem setNextCandidate_spares : Spares new t s (setNextCandidate s e) := by
  unfold setNextCandidate
  split
  · exact .refl s
  · exact .marked (by simp) (setCandidateWalk_marked ..)

theorem setLastCandidate_spares : Spares new t s (setLastCandidate s e) := by
  unfold setLastCandidate
  split
  · exact .refl s
  · exact .marked (by simp) (setCandidateWalk_marked ..)

theorem clearCandidates_spares : Spares new t s (clearCandidates s q e) :=
  .marked (by simp) (clearCandidates_marked (r := fun _ _ => False) ..)

/-- The vruntime that is made absolute is that of the entity which joins. -/
theorem enqueueVruntime_spares (apart : e ≠ .thread t) : Spares new t s (enqueueVruntime s q e flags) := by
  unfold enqueueVruntime
  by_cases wakeup : flags &&& enqueueWakeup = 0
  · simp only [wakeup, if_true, ne_eq, not_true_eq_false, if_false]
    exact (addVtime_spares apart).trans (updateCurr_spares ..)
  · simp only [wakeup, if_false, ne_eq, not_false_eq_true, if_true]
    exact (updateCurr_spares ..).trans (placeEntity_spares apart)

/-- Another entity joins or leaves. -/
theorem setJoined_spares (apart : e ≠ .thread t) (s : State) (ev : Event) (joined : Bool) :
    Spares new t s ((s.emit ev).modEnt e fun ent => { ent with joined := joined }) := by
  refine .spot ?_ (by simp [books_modEnt, books_emit])
  simp [view_modEnt, View.spot, apart.symm]

theorem enqueueAccount_spares (apart : e ≠ .thread t) : Spares new t s (enqueueAccount s q e) := by
  have listed (s : State) : Spares new t s (if (s.sfq q).nrRunning = 1 then addLeafSfq s q else s) := by
    split
    · exact .same (by simp) (by simp)
    · exact .refl s
  unfold enqueueAccount
  exact accountEntityEnqueue_spares.trans
    ((updateSfqShares_spares ..).trans ((listed _).trans (setJoined_spares apart ..)))

/-- Another entity is queued. -/
theorem enqueueEntity_spares (apart : e ≠ .thread t) (run : enqueueEntity s q e flags = some s') : Spares new t s s' := by
  obtain ⟨_, a, b, first, second, rfl⟩ := enqueueEntity_parts run
  exact (enqueueVruntime_spares apart).trans
    ((setRunq_spares apart first).trans ((rawEnqueueEntity_spares second).trans (enqueueAccount_spares apart)))

/-- Another entity is taken off its queue. -/
theorem dequeueEntity_spares (apart : e ≠ .thread t) (run : dequeueEntity s q e flags = some s') : Spares new t s s' := by
  by_cases joined : s.view.joined e
  · obtain ⟨a, first, rfl⟩ := dequeueEntity_parts run joined
    have before : Spares new t s (dequeueClear s q e) :=
      (updateCurr_spares ..).trans (runqDequeueEntity_spares.trans clearCandidates_spares)
    have middle : Spares new t (dequeueClear s q e) a := by
      split at first
      · exact rawDequeueEntity_spares first
      · cases first
        exact .refl _
    have leaves : Spares new t a (dequeueLeave a q e flags) := by
      have parts : Spares new t a (((accountEntityDequeue a q e).emit (.leave q e)).modEnt e
          fun ent => { ent with joined := false }) := accountEntityDequeue_spares.trans (setJoined_spares apart ..)
      unfold dequeueLeave
      dsimp only
      split
      · exact parts.trans (subVtime_spares apart)
      · exact parts
    exact (before.trans middle).trans
      (leaves.trans ((updateSfqVtime_spares ..).trans (updateSfqShares_spares ..)))
  · rw [dequeueEntity_apart run (by simpa using joined)]
    exact .refl s

/-- Another entity becomes current, or none. -/
theorem setCurr_spares {o : Option EntId} (apart : o ≠ some (.thread t)) (view : s'.view = s.view.setCurr q o)
    (vruntime : s'.books.vruntime (.thread t) = s.books.vruntime (.thread t)) : Spares new t s s' := by
  refine ⟨fun before => ⟨?_, vruntime⟩⟩
  have curr (x : Gid) : s'.view.curr x ≠ some (.thread t) := by
    rw [view]
    by_cases here : x = q
    · subst here
      simpa [View.setCurr] using apart
    · simpa [View.setCurr, here] using before.1.curr x
  rw [view] at curr ⊢
  exact ⟨{ before.1 with curr := curr }, fun isNew => { before.2 isNew with curr := curr }⟩

/-- Another entity is put back. -/
theorem putPrevEntity_spares (apart : e ≠ .thread t) (run : putPrevEntity s q e flags = some s') : Spares new t s s' := by
  have releases (s : State) : Spares new t s (putPrevRelease s q e) :=
    setCurr_spares (o := none) (by simp) putPrevRelease_view (by simp [putPrevRelease, books_modSfq, books_emit])
  rcases putPrevEntity_parts run with ⟨_, rfl⟩ | ⟨_, a, b, first, second, rfl⟩
  · exact releases s
  · have charges : Spares new t s (putPrevCharge s q e flags) := by
      unfold putPrevCharge
      split
      · exact (Spares.marked (by simp) (setSkipWalk_marked ..)).trans (updateCurr_spares ..)
      · exact updateCurr_spares ..
    exact charges.trans ((setRunq_spares apart first).trans ((rawEnqueueEntity_spares second).trans (releases b)))

/-- Another entity gets the CPU. -/
theorem activateEntity_spares (apart : e ≠ .thread t) (run : activateEntity s q e = some s') : Spares new t s s' := by
  obtain ⟨_, a, first, _, rfl⟩ := activateEntity_parts run
  have starts : Spares new t a (activateStart a q e) :=
    setCurr_spares (o := some e) (by simpa using apart) activateStart_view
      (by simp [activateStart, books_modEnt, books_modSfq, books_emit])
  exact runqDequeueEntity_spares.trans ((rawDequeueEntity_spares first).trans starts)

end entities

/-- On a way up, each entity but the first is the parent of another. -/
theorem mem_climb {parent : EntId → Option EntId} {fuel : Nat} {o : Option EntId} {x : EntId}
    (member : x ∈ climb parent fuel o) : o = some x ∨ ∃ y, parent y = some x := by
  induction fuel generalizing o with
  | zero => cases member
  | succ fuel ih =>
    cases o with
    | none => cases member
    | some a =>
      rcases List.mem_cons.mp member with rfl | above
      · exact .inl rfl
      · rcases ih above with up | up
        · exact .inr ⟨a, up⟩
        · exact .inr up

/-- A thread that has not started is on no chain but its own. -/
theorem View.Unstarted.off_chain {s : State} {t : Tid} {e : EntId} (h : s.view.Unstarted t) (apart : e ≠ .thread t) :
    EntId.thread t ∉ walkup s (some e) := by
  intro member
  rcases mem_climb member with first | ⟨y, above⟩
  · exact apart (Option.some.inj first)
  · exact h.parent y above

section classes
variable {new : Prop} {s s' : State} {t u : Tid} {flags : Nat} {cls : SchedClass}

theorem EntId.thread_apart (other : u ≠ t) : EntId.thread u ≠ .thread t := fun same => other (EntId.thread.inj same)

/-- A walk spares the thread if it does not pass it, and no chain but its own does. -/
theorem pssEnqueueWalk_spares {chain : List EntId} (apart : .thread t ∉ chain)
    (run : pssEnqueueWalk s chain flags = some s') : Spares new t s s' := by
  induction chain generalizing s flags with
  | nil =>
    cases run
    exact .refl _
  | cons se rest ih =>
    have other : se ≠ .thread t := (List.ne_of_not_mem_cons apart).symm
    have out : .thread t ∉ rest := List.not_mem_of_not_mem_cons apart
    unfold pssEnqueueWalk at run
    split at run
    · cases run
      exact updateSharesWalk_spares ..
    · split at run
      · cases run
      · rename_i first
        exact (enqueueEntity_spares other first).trans (ih out run)

theorem pssDequeueWalk_spares {chain : List EntId} {isSleep : Bool} (apart : .thread t ∉ chain)
    (run : pssDequeueWalk isSleep s chain flags = some s') : Spares new t s s' := by
  induction chain generalizing s flags with
  | nil =>
    cases run
    exact .refl _
  | cons se rest ih =>
    have other : se ≠ .thread t := (List.ne_of_not_mem_cons apart).symm
    have out : .thread t ∉ rest := List.not_mem_of_not_mem_cons apart
    unfold pssDequeueWalk at run
    dsimp only at run
    split at run
    · cases run
    · rename_i a first
      have taken : Spares new t s a := dequeueEntity_spares other first
      split at run
      · cases run
        refine taken.trans (Spares.trans ?_ (updateSharesWalk_spares ..))
        split
        · exact setNextCandidate_spares
        · exact .refl a
      · exact taken.trans (ih out run)

theorem pssPutPrevWalk_spares {chain : List EntId} (apart : .thread t ∉ chain)
    (run : pssPutPrevWalk s chain flags = some s') : Spares new t s s' := by
  induction chain generalizing s with
  | nil =>
    cases run
    exact .refl _
  | cons se rest ih =>
    have other : se ≠ .thread t := (List.ne_of_not_mem_cons apart).symm
    have out : .thread t ∉ rest := List.not_mem_of_not_mem_cons apart
    unfold pssPutPrevWalk at run
    split at run
    · cases run
    · rename_i first
      exact (putPrevEntity_spares other first).trans (ih out run)

theorem pssActivateWalk_spares {chain : List EntId} (apart : .thread t ∉ chain)
    (run : pssActivateWalk s chain = some s') : Spares new t s s' := by
  induction chain generalizing s with
  | nil =>
    cases run
    exact .refl _
  | cons se rest ih =>
    have other : se ≠ .thread t := (List.ne_of_not_mem_cons apart).symm
    have out : .thread t ∉ rest := List.not_mem_of_not_mem_cons apart
    unfold pssActivateWalk at run
    split at run
    · cases run
    · rename_i first
      exact (activateEntity_spares other first).trans (ih out run)

theorem rqRunAdd_spares : Spares new t s (rqRunAdd s u) :=
  .spot (by rw [rqRunAdd_view]; rfl) (by rw [(rqRunAdd_quiet _ _).books])

theorem rqRunRem_spares (run : rqRunRem s u = some s') : Spares new t s s' := by
  refine .spot (by rw [rqRunRem_view run]; rfl) ?_
  unfold rqRunRem at run
  split at run
  · cases run
  · cases run
    split <;> rfl

/-- Another thread is queued, in its class. -/
theorem classEnqueueThread_spares (other : u ≠ t) (run : classEnqueueThread cls s u flags = some s') :
    Spares True t s s' := by
  cases cls with
  | realtime =>
    refine .spot ?_ (by rw [rtEnqueueThread_books run])
    rw [(rtEnqueueThread_view run).2]
    simp [View.spot, View.boost, View.setJoined, other.symm]
  | pss =>
    refine .given fun h => ?_
    obtain ⟨a, walk, rfl⟩ := Option.map_eq_some_iff.mp run
    exact (pssEnqueueWalk_spares (h.off_chain (EntId.thread_apart other)) walk).trans rqRunAdd_spares
  | idle =>
    cases run
    exact .refl s

theorem classDequeueThread_spares (other : u ≠ t) (run : classDequeueThread cls s u flags = some s') :
    Spares True t s s' := by
  cases cls with
  | realtime =>
    by_cases joined : s.view.joined (.thread u)
    · obtain ⟨a, rem, rfl⟩ := rtDequeueThread_parts run joined
      refine rawRunqDequeue_spares.trans ((rqRunRem_spares rem).trans (.spot ?_ (by simp [books_modEnt])))
      simp [view_modEnt, View.spot, other.symm]
    · unfold classDequeueThread rtDequeueThread at run
      rw [if_neg (by simpa using joined)] at run
      cases run
      exact .refl s
  | pss =>
    refine .given fun h => ?_
    obtain ⟨a, walk, rem⟩ := Option.bind_eq_some_iff.mp run
    exact (pssDequeueWalk_spares (h.off_chain (EntId.thread_apart other)) walk).trans (rqRunRem_spares rem)
  | idle =>
    cases run
    exact .refl s

theorem classPutPrevThread_spares (other : u ≠ t) (run : classPutPrevThread cls s u flags = some s') :
    Spares True t s s' := by
  cases cls with
  | realtime =>
    rcases rtPutPrevThread_cases run with ⟨_, look, books, _⟩ | ⟨_, look, books, _⟩
    · exact .same look books
    · refine .spot ?_ (by rw [books])
      rw [look]
      simp [View.spot, View.boost, other.symm]
  | pss =>
    refine .given fun h => ?_
    obtain ⟨a, walk, rfl⟩ := Option.map_eq_some_iff.mp run
    refine (pssPutPrevWalk_spares (h.off_chain (EntId.thread_apart other)) walk).trans ?_
    exact .spot rfl rfl
  | idle =>
    cases run
    exact .setTdState other _

/-- Another thread gets the CPU, in its class. -/
theorem classActivateThread_spares (other : u ≠ t) (run : classActivateThread cls s u = some s') : Spares True t s s' := by
  cases cls with
  | realtime =>
    obtain ⟨_, look, ⟨_, books⟩, _⟩ := rtActivateThread_spec run
    refine .spot ?_ (by rw [books])
    rw [look]
    simp [View.spot, View.unboost, other.symm]
  | pss =>
    refine .given fun h => ?_
    obtain ⟨a, walk, rfl⟩ := Option.map_eq_some_iff.mp run
    refine (pssActivateWalk_spares (h.off_chain (EntId.thread_apart other)) walk).trans ?_
    exact (Spares.setTdState other _).trans (.spot rfl rfl)
  | idle =>
    cases run
    exact .setTdState other _

/-- What is activated is in the accounts, so it is not a thread that has not started. -/
theorem View.Unstarted.not_activated (h : s.view.Unstarted t) (run : classActivateThread (s.td u).cls s u = some s') :
    u ≠ t := by
  rintro rfl
  cases which : (s.td u).cls with
  | realtime =>
    rw [which] at run
    exact Bool.noConfusion (h.joined.symm.trans (rtActivateThread_spec run).1)
  | pss =>
    rw [which] at run
    obtain ⟨a, walk, rfl⟩ := Option.map_eq_some_iff.mp run
    rw [show walkup s (some (.thread u)) = .thread u :: _ from rfl] at walk
    unfold pssActivateWalk at walk
    split at walk
    · cases walk
    · rename_i first
      exact Bool.noConfusion (h.joined.symm.trans (activateEntity_parts first).1)
  | idle => exact h.busy which

/-- The hooks of the scheduler for another thread. -/
theorem enqueueThread_spares (other : u ≠ t) (run : enqueueThread s u flags = some s') : Spares True t s s' :=
  (updateRqClock_spares s).trans (classEnqueueThread_spares other run)

theorem dequeueThread_spares (other : u ≠ t) (run : dequeueThread s u flags = some s') : Spares True t s s' :=
  (updateRqClock_spares s).trans (classDequeueThread_spares other run)

theorem putPrevThread_spares (other : u ≠ t) (run : putPrevThread s u flags = some s') : Spares True t s s' := by
  unfold putPrevThread at run
  dsimp only at run
  refine Spares.trans ?_ (classPutPrevThread_spares other run)
  split
  · exact updateRqClock_spares s
  · exact .refl s

theorem preemptCurr_spares {c : Tid} {e : EntId} {b : Bool} : Spares new t s (preemptCurr s c e b) := by
  have asked : Spares new t s (reschedThread s c) := .unseen (reschedThread_unseen ..)
  unfold preemptCurr
  dsimp only
  split
  · exact asked.trans setLastCandidate_spares
  · exact asked

/-- A check charges the current entity and marks candidates. -/
theorem pssCheckPreemptCurr_spares (run : pssCheckPreemptCurr s u = some s') : Spares new t s s' := by
  unfold pssCheckPreemptCurr at run
  dsimp only at run
  split at run
  · cases run
    exact .refl s
  · split at run
    · cases run
      exact preemptCurr_spares
    · obtain ⟨⟨curr, se⟩, _, done⟩ := Option.map_eq_some_iff.mp run
      have first : Spares new t s (wakeupPreemptEntity (updateCurr s (s.view.sfq curr)) curr se).2 :=
        (updateCurr_spares ..).trans (.unseen (wakeupPreemptEntity_unseen ..))
      dsimp only at done
      split at done
      · rw [← done]
        exact first.trans (setNextCandidate_spares.trans preemptCurr_spares)
      · rw [← done]
        exact first

theorem checkPreemptCurr_spares (run : checkPreemptCurr s u = some s') : Spares new t s s' := by
  have first : Spares new t s (checkPriorityPreempt s u) := .unseen (checkPriorityPreempt_unseen ..)
  unfold checkPreemptCurr at run
  dsimp only at run
  split at run
  · exact first.trans (pssCheckPreemptCurr_spares run)
  · cases run
    exact first

end classes

end SfqSched
