import SfqSched.Accounts
import SfqSched.Leftmost

namespace SfqSched
open State Function

/-- Every candidate of a queue is joined to it. -/
def State.pointed (s : State) : Prop := ∀ c q e, s.books.candidate c q = some e → s.view.seated e ∧ s.view.sfq e = q

theorem Books.candidate_congr {b b' : Books} (skip : b'.skip = b.skip) (next : b'.next = b.next) (last : b'.last = b.last) :
    b'.candidate = b.candidate := by
  funext c
  cases c
  · exact skip
  · exact next
  · exact last

/-- Steps that set no candidate and leave every entity where it is. -/
structure Rests (s s' : State) : Prop where
  pointer : ∀ c q e, s'.books.candidate c q = some e → s.books.candidate c q = some e
  joined : s'.view.joined = s.view.joined
  cls : s'.view.cls = s.view.cls
  sfq : s'.view.sfq = s.view.sfq
  parent : s'.view.parent = s.view.parent

/-- What neither sets a candidate nor moves an entity. -/
def Rests.free : Cell → Bool
  | .candidates | .joined | .cls | .place => false
  | _ => true

namespace Rests
variable {s s' s'' : State} {q : Gid} {e : EntId}

theorem refl (s : State) : Rests s s := ⟨fun _ _ _ => id, rfl, rfl, rfl, rfl⟩

theorem trans (h : Rests s s') (h' : Rests s' s'') : Rests s s'' where
  pointer c q e there := h.pointer c q e (h'.pointer c q e there)
  joined := h'.joined.trans h.joined
  cls := h'.cls.trans h.cls
  sfq := h'.sfq.trans h.sfq
  parent := h'.parent.trans h.parent

theorem of_view (view : s'.view = s.view) (candidate : s'.books.candidate = s.books.candidate) : Rests s s' where
  pointer c q e there := by rwa [candidate] at there
  joined := by rw [view]
  cls := by rw [view]
  sfq := by rw [view]
  parent := by rw [view]

/-- What writes no candidate and moves no entity, as far as a seat goes. -/
theorem of_changes {w : Cell → Bool} (h : Changes w s s') (free : w ≤ Rests.free) : Rests s s' := by
  have same := h.mono free
  refine ⟨fun c q e there => ?_, same.read (fun s => s.view.joined) fun _ => rfl, same.read (fun s => s.view.cls) fun _ => rfl,
    same.read (fun s => s.view.sfq) fun _ => rfl, same.read (fun s => s.view.parent) fun _ => rfl⟩
  have kept : s'.books.candidate c q = s.books.candidate c q :=
    same.read (fun s => s.books.candidate c q) fun _ => by cases c <;> rfl
  rwa [kept] at there

theorem free_weighing : weighing ≤ Rests.free := fun c => by cases c <;> decide
theorem free_queueing : queueing ≤ Rests.free := fun c => by cases c <;> decide
theorem free_listing : listing ≤ Rests.free := fun c => by cases c <;> decide

/-- A charge marks nobody. -/
theorem charge (s : State) (q : Gid) : Rests s (updateCurr s q) :=
  .of_changes (updateCurr_changes s q) (charging_weighing.trans free_weighing)

theorem account (s : State) (q : Gid) (e : EntId) : Rests s (accountEntityEnqueue s q e) :=
  .of_changes (accountEntityEnqueue_changes s q e) (accounting_weighing.trans free_weighing)

theorem unaccount (s : State) (q : Gid) (e : EntId) : Rests s (accountEntityDequeue s q e) :=
  .of_changes (accountEntityDequeue_changes s q e) (accounting_weighing.trans free_weighing)

/-- A weight is no candidate. -/
theorem shares (s : State) (q : Gid) : Rests s (updateSfqShares s q) := .of_changes (updateSfqShares_changes s q) free_weighing

/-- A thread that becomes runnable is not marked for it. -/
theorem runq {flags : Nat} (run : setRunq s e flags = some s') : Rests s s' :=
  .of_changes (setRunq_changes run) (boosting_queueing.trans free_queueing)

/-- Nor is an entity that comes into a timeline. -/
theorem insert (run : rawEnqueueEntity s q e = some s') : Rests s s' := .of_changes (rawEnqueueEntity_changes run) free_queueing

theorem remove (run : rawDequeueEntity s q e = some s') : Rests s s' := .of_changes (rawDequeueEntity_changes run) free_queueing

theorem off (s : State) (e : EntId) : Rests s (runqDequeueEntity s e) :=
  .of_changes (runqDequeueEntity_changes s e) ((shelving_boosting.trans boosting_queueing).trans free_queueing)

/-- To clear marks nobody. -/
theorem clear (s : State) (q : Gid) (e : EntId) : Rests s (clearCandidates s q e) := by
  refine ⟨fun c x a there => ?_, ?_, ?_, ?_, ?_⟩
  · exact ((clearCandidates_marked s q e (r := fun _ _ => False)).pointer c x a there).resolve_right id
  all_goals rw [clearCandidates_view]

theorem silent (view : s'.view = s.view) (sfq : s'.sfq = s.sfq) : Rests s s' := by
  refine .of_view view (Books.candidate_congr ?_ ?_ ?_)
  · exact congrArg (fun f : Gid → Sfq => fun q => (f q).skip) sfq
  · exact congrArg (fun f : Gid → Sfq => fun q => (f q).next) sfq
  · exact congrArg (fun f : Gid → Sfq => fun q => (f q).last) sfq

theorem vtime (s : State) (q : Gid) : Rests s (updateSfqVtime s q) :=
  .of_changes (updateSfqVtime_changes s q) (timing_charging.trans (charging_weighing.trans free_weighing))

end Rests

/-- Steps after which candidates are joined to their queues if they were before. -/
structure Points (s s' : State) : Prop where
  kept : s.pointed → s'.pointed

namespace Points
variable {s s' s'' : State} {q : Gid} {e : EntId}

theorem refl (s : State) : Points s s := ⟨id⟩

theorem trans (h : Points s s') (h' : Points s' s'') : Points s s'' := ⟨h'.kept ∘ h.kept⟩

/-- Each candidate there is was one before, and is still seated where it was. -/
theorem stays (pointer : ∀ c q e, s'.books.candidate c q = some e → s.books.candidate c q = some e)
    (keeps : ∀ e, s.view.seated e → s'.view.seated e ∧ s'.view.sfq e = s.view.sfq e) : Points s s' := by
  refine ⟨fun pointed c q e there => ?_⟩
  obtain ⟨seated, place⟩ := pointed c q e (pointer c q e there)
  exact ⟨(keeps e seated).1, (keeps e seated).2.trans place⟩

/-- What keeps all seats keeps the candidates where they point. -/
theorem rests (h : Rests s s') : Points s s' := by
  refine .stays h.pointer fun e seated => ⟨?_, congrFun h.sfq e⟩
  unfold View.seated
  rw [h.joined, h.cls]
  exact seated

/-- New candidates point to entities that are seated on their queues. -/
theorem marked {ok : Gid → EntId → Prop} (view : s'.view = s.view) (h : s.books.Marked ok s'.books)
    (fits : ∀ q e, ok q e → s.view.seated e ∧ s.view.sfq e = q) : Points s s' := by
  refine ⟨fun pointed c q e there => ?_⟩
  rw [view]
  exact (h.pointer c q e there).elim (pointed c q e) (fits q e)

/-- An entity that joins takes no one's place. -/
theorem joins (s : State) (e : EntId) : Points s (s.modEnt e fun ent => { ent with joined := true }) := by
  refine .stays (fun _ _ _ => id) fun x seated => ?_
  rw [view_modEnt]
  refine ⟨⟨?_, seated.2⟩, ?_⟩
  · dsimp only
    rw [update_apply]
    split
    · rfl
    · exact seated.1
  · simp

/-- An entity that leaves is no candidate of its queue. -/
theorem leaves (cleared : ∀ c, s.books.candidate c (s.view.sfq e) ≠ some e) :
    Points s (s.modEnt e fun ent => { ent with joined := false }) := by
  refine ⟨fun pointed c q x there => ?_⟩
  have old : s.books.candidate c q = some x := there
  obtain ⟨seated, place⟩ := pointed c q x old
  have other : x ≠ e := by
    rintro rfl
    rw [← place] at old
    exact cleared c old
  rw [view_modEnt]
  refine ⟨⟨?_, seated.2⟩, ?_⟩
  · dsimp only
    rw [update_of_ne other]
    exact seated.1
  · simpa [update_of_ne other] using place

end Points

section entities
variable {s s' : State} {q : Gid} {e : EntId} {flags : Nat}

/-- Who is queued is seated, and nobody is marked. -/
theorem enqueueEntity_points (run : enqueueEntity s q e flags = some s') : Points s s' := by
  obtain ⟨_, a, b, first, second, rfl⟩ := enqueueEntity_parts run
  have before : Rests s (enqueueVruntime s q e flags) :=
    .of_changes (enqueueVruntime_changes s q e flags) (charging_weighing.trans Rests.free_weighing)
  have listed (s : State) : Rests s (if (s.sfq q).nrRunning = 1 then addLeafSfq s q else s) :=
    .of_changes (.ite (addLeafSfq_changes s q) (.refl s)) Rests.free_listing
  have noted (s : State) : Rests s (s.emit (.join q e)) := .silent rfl rfl
  have after : Points b (enqueueAccount b q e) :=
    (Points.rests ((Rests.account ..).trans ((Rests.shares ..).trans ((listed _).trans (noted _))))).trans (.joins ..)
  exact (Points.rests (before.trans ((Rests.runq first).trans (.insert second)))).trans after

/-- Who leaves its queue is cleared from its candidates first. -/
theorem dequeueEntity_points (run : dequeueEntity s (s.view.sfq e) e flags = some s') : Points s s' := by
  by_cases joined : s.view.joined e
  · obtain ⟨a, first, rfl⟩ := dequeueEntity_parts run joined
    have charged : Rests s (runqDequeueEntity (updateCurr s (s.view.sfq e)) e) := (Rests.charge ..).trans (.off ..)
    have before : Rests s (dequeueClear s (s.view.sfq e) e) := charged.trans (.clear ..)
    have middle : Rests (dequeueClear s (s.view.sfq e) e) a := by
      split at first
      · exact .remove first
      · cases first
        exact .refl _
    have taken : Rests a ((accountEntityDequeue a (s.view.sfq e) e).emit (.leave (s.view.sfq e) e)) :=
      (Rests.unaccount ..).trans (.silent rfl rfl)
    have cleared (c : Candidate) : ((accountEntityDequeue a (s.view.sfq e) e).emit (.leave (s.view.sfq e) e)).books.candidate c
        (((accountEntityDequeue a (s.view.sfq e) e).emit (.leave (s.view.sfq e) e)).view.sfq e) ≠ some e := by
      intro there
      have old := (middle.trans taken).pointer c _ e there
      rw [(before.trans (middle.trans taken)).sfq] at old
      have gone := clearCandidates_cleared (runqDequeueEntity (updateCurr s (s.view.sfq e)) e) e c
      rw [charged.sfq] at gone
      exact gone old
    have leaves : Points a (dequeueLeave a (s.view.sfq e) e flags) := by
      have parts := (Points.rests taken).trans (.leaves cleared)
      unfold dequeueLeave
      dsimp only
      split
      · exact parts.trans (.rests (.silent (subVtime_view ..) rfl))
      · exact parts
    exact (Points.rests (before.trans middle)).trans (leaves.trans (.rests ((Rests.vtime ..).trans (.shares ..))))
  · rw [dequeueEntity_apart run (by simpa using joined)]
    exact .refl s

/-- Who gets the CPU stays seated. -/
theorem activateEntity_rests (run : activateEntity s q e = some s') : Rests s s' := by
  obtain ⟨_, a, first, _, rfl⟩ := activateEntity_parts run
  have starts : Changes Rests.free a (activateStart a q e) :=
    .trans (.trans (.emit _ _ rfl) (.modSfq _ _ _ rfl)) (.modEnt _ _ _ rfl)
  exact (Rests.off ..).trans ((Rests.remove first).trans (.of_changes starts le_rfl))

theorem pssActivateWalk_rests {chain : List EntId} (run : pssActivateWalk s chain = some s') : Rests s s' := by
  induction chain generalizing s with
  | nil =>
    cases run
    exact .refl _
  | cons se rest ih =>
    unfold pssActivateWalk at run
    split at run
    · cases run
    · rename_i step
      exact (activateEntity_rests step).trans (ih run)

/-- A pick clears candidates and sets none. -/
theorem pickNextEntity_rests (run : pickNextEntity s q = some (e, s')) : Rests s s' := by
  obtain ⟨first, gran, a, _, view, books, _, rfl, _⟩ := pickNextEntity_spec run
  have noted : Rests a (a.emit (.pick q (s.books.seq q) first gran e)) := .silent rfl rfl
  exact (Rests.of_view view (by rw [books])).trans (noted.trans (.clear ..))

/-- A yield marks the chain of the thread that is put back. -/
theorem putPrevEntity_points (run : putPrevEntity s q e flags = some s')
    (above : ∀ t, e = .thread t → s.view.joined e → ∀ x ∈ walkup s (some e), s.view.seated x) : Points s s' := by
  have released (s : State) : Changes Rests.free s (putPrevRelease s q e) := .trans (.emit _ _ rfl) (.modSfq _ _ _ rfl)
  have releases (s : State) : Rests s (putPrevRelease s q e) := .of_changes (released s) le_rfl
  rcases putPrevEntity_parts run with ⟨_, rfl⟩ | ⟨joined, a, b, first, second, rfl⟩
  · exact .rests (releases s)
  · have charges : Points s (putPrevCharge s q e flags) := by
      unfold putPrevCharge
      split
      · rename_i yields
        cases e with
        | group g =>
          rw [seToTd_group] at yields
          exact absurd yields.1 Bool.false_ne_true
        | thread t =>
          refine Points.trans ?_ (.rests (.charge ..))
          refine .marked (setSkipWalk_view ..) (setSkipWalk_marked ..) ?_
          rintro q x ⟨member, place⟩
          exact ⟨above t rfl joined x member, place⟩
      · exact .rests (.charge ..)
    exact charges.trans (.rests ((Rests.runq first).trans ((Rests.insert second).trans (releases b))))

theorem pssPutPrevWalk_points {chain : List EntId} (groups : ∀ e ∈ chain, ∃ g, e = .group g)
    (run : pssPutPrevWalk s chain flags = some s') : Points s s' := by
  induction chain generalizing s with
  | nil =>
    cases run
    exact .refl _
  | cons x rest ih =>
    unfold pssPutPrevWalk at run
    split at run
    · cases run
    · rename_i a step
      obtain ⟨g, rfl⟩ := groups x (List.mem_cons_self ..)
      refine (putPrevEntity_points step fun t never => by cases never).trans ?_
      exact ih (fun y member => groups y (List.mem_cons_of_mem _ member)) run

/-- The marks that a yield leaves are on the chain of a joined thread, all of which is seated. -/
theorem pssPutPrevThread_points {t : Tid} (hier : s.view.Hier) (run : pssPutPrevThread s t flags = some s')
    (above : s.view.joined (.thread t) → ∀ x ∈ walkup s (some (.thread t)), s.view.seated x) : Points s s' := by
  obtain ⟨a, walk, rfl⟩ := Option.map_eq_some_iff.mp run
  obtain ⟨rest, eq, _, _, groups⟩ := thread_chain hier t
  rw [eq] at walk
  unfold pssPutPrevWalk at walk
  split at walk
  · cases walk
  · rename_i b step
    have first : Points s b := by
      refine putPrevEntity_points step ?_
      rintro u ⟨⟩ joined
      exact above joined
    exact first.trans ((pssPutPrevWalk_points groups walk).trans (.rests (.silent rfl rfl)))

end entities

section runs
variable {C : Conds} {s s' : State} {L : List EntId} {d : Option EntId}

theorem Flow.points (step : Flow C s s') (positive : C.positive) (marks : C.marks) :
    Points s s' := by
  cases step with
  | quiet same =>
    refine .stays (fun c q e there => ?_) fun e seated => ⟨(same.seated e).mpr seated, same.sfq e (.inl seated)⟩
    rwa [same.books] at there
  | clock run =>
    rw [run]
    exact .rests (.silent rfl rfl)
  | charge q run =>
    rw [run]
    exact .rests (.charge s q)
  | reshare q inside run =>
    rw [run]
    exact .rests (.shares s q)
  | enqueue e flags run => exact enqueueEntity_points run
  | start t flags initial run =>
    refine Points.trans ?_ (enqueueEntity_points run)
    refine .stays (fun _ _ _ => id) fun e seated => ?_
    change View.seated (s.modEnt (.thread t) fun se => { se with initial := false }).view e ∧
      (s.modEnt (.thread t) fun se => { se with initial := false }).view.sfq e = s.view.sfq e
    rw [view_modEnt]
    simpa [View.seated] using seated
  | dequeue e flags run => exact dequeueEntity_points run
  | putPrev t flags run pss inv =>
    refine pssPutPrevThread_points inv.core.hier run fun joined => ?_
    have links := inv.core.hier.chain (e := .thread t) (Nat.lt_succ_self _)
    exact (inv.tight positive).chain inv.core links ⟨joined, pss⟩
  | activate t run =>
    obtain ⟨a, walk, rfl⟩ := Option.map_eq_some_iff.mp run
    refine (Points.rests (pssActivateWalk_rests walk)).trans (.rests ⟨fun _ _ _ => id, ?_, ?_, ?_, ?_⟩)
    all_goals rw [view_emit, setTdState_view]
  | mark ok view marked steady fits =>
    exact .marked view marked fun q e allowed => ⟨(fits q e allowed).2 positive marks, (fits q e allowed).1⟩
  | uncount t run =>
    unfold rqRunRem at run
    split at run
    · cases run
    · cases run
      split <;> exact .stays (fun _ _ _ => id) fun e seated => ⟨seated, rfl⟩
  | choose run =>
    rw [run]
    exact .rests (.silent rfl rfl)
  | pick q e run => exact .rests (pickNextEntity_rests run)
  | rtActivate t run =>
    obtain ⟨_, look, ⟨_, books⟩, _⟩ := rtActivateThread_spec run
    refine .stays (fun c q e there => ?_) fun e seated => ?_
    · rw [books] at there
      exact there
    · rw [look]
      exact ⟨seated, rfl⟩

/-- A thread that is in no queue may change class or place. -/
theorem Points.detached {t : Tid} (apart : Detached s.view t)
    (pointer : ∀ c q e, s'.books.candidate c q = some e → s.books.candidate c q = some e)
    (keeps : ∀ e, e ≠ .thread t → s.view.seated e → s'.view.seated e ∧ s'.view.sfq e = s.view.sfq e) : Points s s' := by
  refine .stays pointer fun e seated => keeps e ?_ seated
  rintro rfl
  exact Bool.noConfusion (apart.apart.symm.trans seated.1)

/-- A detached thread is nobody's candidate. -/
theorem storeClass_points {t : Tid} (apart : Detached s.view t) (priClass : PriClass) (cls : SchedClass) :
    Points s (storeClass s t priClass cls) := by
  refine .detached apart (fun _ _ _ => id) fun e other seated => ?_
  rw [storeClass_view]
  refine ⟨⟨seated.1, ?_⟩, rfl⟩
  cases e with
  | group g => trivial
  | thread u =>
    have away : u ≠ t := fun same => other (congrArg EntId.thread same)
    simpa [View.setClass, away] using seated.2

theorem pssForkThread_rests (s : State) (p child : Tid) : Rests s (pssForkThread s p child) := by
  refine .of_view (pssForkThread_view ..) ?_
  have charged (s : State) (q : Gid) : (updateCurr s q).books.candidate = s.books.candidate := by
    rcases updateCurr_books s q with ⟨same, _⟩ | ⟨_, _, _, _, paid⟩
    · rw [same]
    · rw [paid]
      exact Books.candidate_congr rfl rfl rfl
  have placed (s : State) (q : Gid) : (placeEntityInitial s q (.thread child)).books.candidate = s.books.candidate := by
    obtain ⟨_, books⟩ := placeEntityInitial_books s q (.thread child)
    rw [books]
    exact Books.candidate_congr rfl rfl rfl
  have place : (pssForkPlace s p child).books.candidate = s.books.candidate :=
    (placed _ _).trans (charged (updateRqClock s) _)
  unfold pssForkThread
  dsimp only
  split
  · exact place
  · exact place

/-- A new thread is nobody's candidate. -/
theorem fork_points {p : Tid} (core : s.view.Core L) (inside : p < s.view.nthreads) (newProc : Bool) (stale : SchedEntity) :
    Points s (fork s p newProc stale) := by
  have unborn := core.unborn
  have born : Points s (schedForkInit (forkAlloc s p newProc) p s.nthreads stale) := by
    refine .stays (fun c q e there => ?_) fun e seated => ?_
    · cases newProc <;> exact there
    · have other : e ≠ .thread s.view.nthreads := by
        rintro rfl
        exact Bool.noConfusion (unborn.joined.symm.trans seated.1)
      rw [schedForkInit_view core inside]
      refine ⟨⟨seated.1, ?_⟩, by simp [View.born, update_of_ne other]⟩
      cases e with
      | group g => trivial
      | thread u =>
        have away : u ≠ s.view.nthreads := fun same => other (congrArg EntId.thread same)
        simpa [View.born, away] using seated.2
  refine born.trans (.rests ?_)
  unfold fork schedForkThread
  dsimp only
  split
  · exact pssForkThread_rests ..
  · exact .silent rfl rfl

theorem pssSwitchedFrom_rests (s : State) (t : Tid) : Rests s (pssSwitchedFrom s t) := by
  unfold pssSwitchedFrom
  dsimp only
  split
  · exact (Rests.silent (placeEntity_view ..) rfl).trans (.silent (subVtime_view ..) rfl)
  · exact .refl s

/-- A thread is detached while it changes queues, so no candidate follows it. -/
theorem pssSchedGroupMove_points {t : Tid} (apart : Detached s.view t) (onRq : Bool) :
    Points s (pssSchedGroupMove s t onRq) := by
  have moves (s : State) (apart : s.view.joined (.thread t) = false) : Points s (setThreadRq s t) := by
    refine .stays (fun _ _ _ => id) fun e seated => ?_
    have other : e ≠ .thread t := by
      rintro rfl
      exact Bool.noConfusion (apart.symm.trans seated.1)
    rw [setThreadRq_view]
    exact ⟨seated, update_of_ne other ..⟩
  unfold pssSchedGroupMove
  dsimp only
  split
  · have before : Rests s (subVtime s (s.ent (.thread t)).sfq (.thread t)) := .silent (subVtime_view ..) rfl
    refine (Points.rests before).trans ((moves _ ?_).trans (.rests (.silent (addVtime_view ..) rfl)))
    rw [subVtime_view]
    exact apart.apart
  · exact moves s apart.apart

/-- A new queue has no candidate. -/
theorem schedGroupCreate_points {p : Gid} (core : s.view.Core L) (inside : p < s.view.ngroups) (shares : Nat) :
    Points s (schedGroupCreate s p shares) := by
  have blank := core.blank
  refine .stays (fun c q e there => ?_) fun e seated => ?_
  · by_cases new : q = s.ngroups
    · subst new
      have empty : ((schedGroupCreate s p shares).sfq s.ngroups).candidate c = none := by
        simp only [schedGroupCreate, pssAllocSchedGroup, State.modGrp, State.modSfq, State.modEnt, update_self]
        cases c <;> rfl
      rw [books_candidate] at empty
      cases empty.symm.trans there
    · have kept : (schedGroupCreate s p shares).sfq q = s.sfq q := by
        simp only [schedGroupCreate, pssAllocSchedGroup, State.modGrp, State.modSfq, State.modEnt]
        exact update_of_ne new ..
      have same : ((schedGroupCreate s p shares).sfq q).candidate c = some e := by
        rw [books_candidate]
        exact there
      rw [kept, books_candidate] at same
      exact same
  · have other : e ≠ .group s.view.ngroups := by
      rintro rfl
      exact Bool.noConfusion (blank.joined.symm.trans seated.1)
    rw [schedGroupCreate_view core inside]
    exact ⟨seated, update_of_ne other ..⟩

theorem Micro.points (inv : Inv C s L d) (step : Micro C s s') (positive : C.positive) (marks : C.marks) :
    Points s s' := by
  cases step with
  | flow step => exact step.points positive marks
  | recast t priClass cls run apart =>
    rw [run]
    exact storeClass_points apart priClass cls
  | switchedFrom t priClass cls run apart =>
    rw [run]
    exact (storeClass_points apart priClass cls).trans (.rests (pssSwitchedFrom_rests ..))
  | switchedTo t priClass run apart =>
    rw [run]
    exact (storeClass_points apart priClass .pss).trans (.rests (.silent (addVtime_view ..) rfl))
  | weigh t run =>
    rw [run]
    refine .rests ⟨fun _ _ _ => id, ?_, ?_, ?_, ?_⟩ <;> rw [setThreadWeight, view_modEnt] <;> simp
  | nice p nice range run =>
    rw [run]
    exact .rests (.silent rfl rfl)
  | move t onRq run apart =>
    rw [run]
    exact pssSchedGroupMove_points apart onRq
  | fork parent newProc stale run inside =>
    rw [run]
    exact fork_points inv.core inside newProc stale
  | exit t run =>
    rw [run]
    refine .rests ⟨fun _ _ _ => id, ?_, ?_, ?_, ?_⟩ <;> rw [view_modProc, view_modTd]
    simp
  | setShares g shares run =>
    rw [run]
    refine .rests ⟨fun _ _ _ => id, ?_, ?_, ?_, ?_⟩ <;> rw [view_modGrp]
  | create parent shares run inside =>
    rw [run]
    exact schedGroupCreate_points inv.core inside shares
  | sysctl write tun new run =>
    rw [run]
    exact .rests (.silent rfl rfl)

/-- Where no queue has a current entity, what is picked comes from the timeline. -/
theorem picked_listed {q : Gid} {e : EntId} {a : State} (inv : Inv C s L d) (led : s.led) (pointed : s.pointed)
    (vacant : s.view.vacant) (run : pickNextEntity s q = some (e, a)) : e ∈ s.books.seq q := by
  obtain ⟨first, _, _, leftmost, _, _, _, _, which⟩ := pickNextEntity_spec run
  rcases which with rfl | ⟨there | ⟨c, there⟩, _⟩
  · exact List.mem_of_mem_head? ((led q).symm.trans leftmost)
  · exact there
  · obtain ⟨⟨joined, pss⟩, rfl⟩ := pointed c q e there
    have listed := (inv.core.covered e joined pss).resolve_right fun current => by
      cases (vacant _).symm.trans current
    exact Multiset.mem_coe.mp listed

/-- Along every path candidates point to seated entities of their own queues. -/
theorem Path.points (h : Path C s s') (positive : C.positive) (marks : C.marks) : Points s s' := by
  induction h with
  | refl => exact .refl _
  | step inv micro _ ih => exact (micro.points inv positive marks).trans ih

theorem Path.picks (h : Path C s s') (positive : C.positive) (marks : C.marks) (led : s.led) (pointed : s.pointed) :
    Records True s s' := by
  induction h with
  | refl => exact .refl _
  | step inv micro _ ih =>
    have chosen := fun (_ : True) q e a vacant run => picked_listed (q := q) (e := e) (a := a) inv led pointed vacant run
    exact (micro.records inv chosen).trans
      (ih (micro.leads.kept led) ((micro.points inv positive marks).kept pointed))

/-- There is no candidate to begin with. -/
theorem bootQueues_pointed (k : Kernel) (tun : Tunables) : (bootQueues k tun).pointed := by
  intro c q e there
  cases c <;> cases there

end runs

/-- Positive shares, and no class change that makes an entity off its queue a candidate. -/
def Conds.marked : Conds := ⟨True, True, False, False, False, False⟩

/-- Whether `sched_class` has `pss_switched_to` make an entity that is not joined a candidate:
the thread was never enqueued, enters `pss_class` and would preempt the running one. -/
def marksApart (s : State) (t : Tid) (priClass : PriClass) : Bool :=
  (s.td t).tdState ≠ .runq && (s.td t).tdState ≠ .running && (s.ent (.thread t)).initial &&
    (s.td t).cls ≠ .pss && getSchedClass s t priClass = .pss &&
    (preemptMark (storeClass s t priClass .pss) t).any fun e => !(s.ent e).joined

/-- In a run that meets the condition each operation marks with care. -/
theorem run_marked {k : Kernel} {tun : Tunables} {ops : List Op} {s : State} (ran : run k tun ops = some s)
    (asked : ∀ g, g ≠ 0 → Op.setShares g 0 ∉ ops)
    (kept : ∀ before t priClass after a, ops = before ++ .schedClass t priClass :: after →
      run k tun before = some a → ¬marksApart a t priClass) : Runs .marked k tun ops s := by
  refine run_runs ops ran fun before op after a split there => ?_
  cases op with
  | schedClass t priClass =>
    refine ⟨fun _ never => never.elim, fun _ _ rests initial old pss e mark => ?_⟩
    by_contra apart
    refine kept before t priClass after a split there ?_
    unfold marksApart
    have some_there : (preemptMark (storeClass a t priClass .pss) t).any fun e => !(a.ent e).joined := by
      rw [mark]
      simpa using apart
    simp only [some_there, Bool.and_true, Bool.and_eq_true, decide_eq_true_eq]
    exact ⟨⟨⟨⟨rests.1, rests.2⟩, initial⟩, old⟩, pss⟩
  | fork p newProc stale => exact fun never => never.elim
  | setShares g shares =>
    refine ⟨fun _ above zero => asked g above ?_, fun never => never.elim⟩
    rw [split, zero]
    simp
  | nice p nice => exact id
  | _ => trivial

/-- Candidates are joined to their queues, and no pick returns an entity that is not. -/
theorem candidates_joined (k : Kernel) (tun : Tunables) (ops : List Op) (s : State) (ran : run k tun ops = some s)
    (asked : ∀ g, g ≠ 0 → Op.setShares g 0 ∉ ops)
    (kept : ∀ before t priClass after a, ops = before ++ .schedClass t priClass :: after →
      run k tun before = some a → ¬marksApart a t priClass) :
    (∀ c q e, (s.sfq q).candidate c = some e → (s.ent e).joined ∧ (s.ent e).sfq = q) ∧
    (∀ q e a, pickNextEntity s q = some (e, a) → (s.ent e).joined) ∧
    ∀ q timeline first gran e, .pick q timeline first gran e ∈ s.journal → e ∈ timeline := by
  have runs := run_marked ran asked kept
  have pointed := (runs.path.points trivial trivial).kept (bootQueues_pointed k tun)
  have core := runs.settled.stands.inv.core
  refine ⟨fun c q e there => ?_, fun q e a picked => ?_, fun q timeline first gran e member => ?_⟩
  · rw [books_candidate] at there
    obtain ⟨seated, place⟩ := pointed c q e there
    exact ⟨seated.1, place⟩
  · have listed (x : EntId) (member : x ∈ s.books.seq q) : s.view.joined x := (core.member q x (Multiset.mem_coe.mpr member)).1
    obtain ⟨first, _, _, leftmost, _, _, _, _, which⟩ := pickNextEntity_spec picked
    rcases which with rfl | ⟨there | ⟨c, there⟩, _⟩
    · exact listed _ (List.mem_of_mem_head? ((runs.led q).symm.trans leftmost))
    · exact listed _ there
    · exact (pointed c q e there).1.1
  · have picks := runs.path.picks trivial trivial (bootQueues_led k tun) (bootQueues_pointed k tun)
    exact picks.kept (bootQueues_sound k tun) _ member trivial

theorem candidates_joined_yield :
    ∃ s, run plainKernel {} [.fork 0 false {}, .add 2, .switch 6] = some s ∧
      (s.sfq 0).skip = some (.thread 0) ∧ (s.ent (.thread 0)).joined := by
  have result : (run plainKernel {} [.fork 0 false {}, .add 2, .switch 6]).map (fun s => (s.sfq 0).skip) =
      some (some (.thread 0)) := by decide +kernel
  obtain ⟨s, ran, skip⟩ := Option.map_eq_some_iff.mp result
  have none_asked (before after : List Op) (t : Tid) (priClass : PriClass)
      (split : [.fork 0 false {}, .add 2, .switch 6] = before ++ .schedClass t priClass :: after) : False := by
    have member : Op.schedClass t priClass ∈ [.fork 0 false {}, .add 2, .switch 6] := by
      rw [split]
      simp
    simp at member
  have all := candidates_joined plainKernel {} [.fork 0 false {}, .add 2, .switch 6] s ran (by simp)
    fun before t priClass after _ split => (none_asked before after t priClass split).elim
  exact ⟨s, ran, skip, (all.1 .skip 0 _ skip).1⟩

/-- A class change of a thread that was forked but never added, while the running thread is of class `PRI_IDLE`. -/
def pointedApart : List Op :=
  [.sysctl (.startDebit false), .sysctl (.schedMinGranularity 6000000), .prio 0 200, .fork 0 false {},
    .schedClass 0 .idle, .schedClass 2 .realtime, .schedClass 2 .timeshare]

/-- The thread becomes a candidate, and the next dispatch fails at the assertion. -/
theorem candidates_apart :
    ¬ ∀ (k : Kernel) (tun : Tunables) (ops : List Op) (s : State), run k tun ops = some s →
      (∀ c q e, (s.sfq q).candidate c = some e → (s.ent e).joined ∧ (s.ent e).sfq = q) ∨
        (step s (.switch 0)).isSome := by
  intro claimed
  have result : (run plainKernel {} pointedApart).map (fun s =>
      ((s.sfq 0).last, (s.ent (.thread 2)).joined, (step s (.switch 0)).isSome)) =
      some (some (.thread 2), false, false) := by decide +kernel
  obtain ⟨s, ran, values⟩ := Option.map_eq_some_iff.mp result
  simp only [Prod.mk.injEq] at values
  obtain ⟨last, apart, fails⟩ := values
  rcases claimed _ _ _ s ran with pointed | dispatched
  · have joined := (pointed .last 0 _ last).1
    rw [apart] at joined
    cases joined
  · rw [fails] at dispatched
    cases dispatched

end SfqSched
