import SfqSched.AddSteps
import SfqSched.UserPriSched

namespace SfqSched
open State Function

section change
variable {C : Conds} {s s' : State} {L : List EntId} {cpu : Option Tid} {t : Tid} {priClass : PriClass} {cls : SchedClass}

/-- A part that moves no thread is an operation of its own. -/
theorem Reaches.reached (h : Reaches C s s' (currentOn s (some s.curthread)) s.view.roster)
    (stands : Stands C s (some s.curthread)) : Reached C s s' := by
  have current : s'.curthread = s.curthread := congrArg Roster.curthread h.roster
  refine ⟨h.path, ?_, ?_⟩
  · rw [current, currentOn_congr (c := some s.curthread) h.frame fun u _ => congrFun (congrArg Roster.cls h.roster) u]
    exact h.inv
  · rw [current, h.roster]
    exact stands.roster

theorem Reached.trans {s'' : State} (h : Reached C s s') (h' : Reached C s' s'') : Reached C s s'' :=
  ⟨h.1.trans h'.1, h'.2⟩

variable (s t priClass cls) in
theorem storeClass_view : (storeClass s t priClass cls).view = s.view.setClass t cls := by
  unfold storeClass
  rw [view_modTd]
  simp [View.setClass]

variable (priClass cls) in
theorem storeClass_inv (inv : Inv C s L none) (apart : Detached s.view t) : Inv C (storeClass s t priClass cls) L none := by
  refine ⟨?_, fun positive => ?_, ?_⟩
  · rw [storeClass_view]
    exact inv.core.setClass apart cls
  · rw [storeClass_view]
    exact (inv.tight positive).setClass apart cls
  · rw [storeClass_view]
    exact inv.filled

/-- A thread that rests is on no queue. -/
theorem resting_detached (stands : Stands C s cpu) (inside : t < s.view.nthreads) (live : s.view.exited t = false)
    (rests : s.view.resting t) : Detached s.view t ∧ cpu ≠ some t := by
  have fits := stands.roster.live t inside live
  have off : cpu ≠ some t := fun onCpu => rests.2 (fits.running.mpr onCpu)
  refine ⟨⟨inside, live, ?_, fun q current => ?_⟩, off⟩
  · by_cases idle : s.view.cls t = .idle
    · exact fits.idle idle
    · by_contra joined
      rcases (fits.joined idle).mp (by simpa [View.roster] using joined) with runq | running
      · exact rests.1 runq
      · exact rests.2 running
  · exact stands.away off ((stands.inv.core.curr q _).mp current).1

/-- The class of the thread does not show in the chain of what is on the CPU. -/
theorem currentOn_storeClass (off : cpu ≠ some t) : currentOn (storeClass s t priClass cls) cpu = currentOn s cpu := by
  refine currentOn_congr (c := cpu) ?_ fun u taken => ?_
  · rw [storeClass_view]
    rfl
  · rw [storeClass_view]
    have other : u ≠ t := by
      rintro rfl
      exact off taken
    simp [View.setClass, other]

theorem checkClassChanged_queued {prev : SchedClass} (stands : Stands C s (some s.curthread)) (inside : t < s.view.nthreads)
    (live : s.view.exited t = false) (queued : ¬s.view.resting t) (run : checkClassChanged s t prev = some s') :
    Reached C s s' := by
  have fits := stands.roster.live t inside live
  have awake : sleeping s t = false := by
    unfold View.resting at queued
    unfold sleeping
    simp only [view_tdState]
    by_contra asleep
    simp only [Bool.not_eq_false, Bool.and_eq_true] at asleep
    exact queued ⟨of_decide_eq_true asleep.1.2, of_decide_eq_true asleep.2⟩
  unfold checkClassChanged at run
  split at run
  · cases run
    exact ⟨.refl s, stands⟩
  · have from_ : (if prev = .pss then pssSwitchedFrom s t else s) = s := by
      split
      · simp [pssSwitchedFrom, awake]
      · rfl
    rw [from_] at run
    dsimp only at run
    split at run
    · rename_i pss
      unfold pssSwitchedTo at run
      rw [awake] at run
      simp only [Bool.false_eq_true, if_false] at run
      split at run
      · cases run
        exact ((reschedThread_unseen s t).reaches stands.inv).reached stands
      · have joined : s.view.joined (.thread t) := by
          refine (fits.joined ?_).mpr ?_
          · have same : s.view.roster.cls t = .pss := pss
            rw [same]
            simp
          · unfold View.resting at queued
            by_contra never
            exact queued ⟨fun runq => never (.inl runq), fun running => never (.inr running)⟩
        exact (checkPreemptCurr_reaches stands.inv
          (fun positive _ => preemptMark_joined stands.inv positive joined) run).reached stands
    · cases run
      exact ⟨.refl s, stands⟩

/-- The roster of a thread that rests when its class changes. -/
theorem setClass_ok (stands : Stands C s cpu) (inside : t < s.view.nthreads) (live : s.view.exited t = false)
    (rests : s.view.resting t) (idleTd : cls = .idle → s.view.idleTd t ∨ s.view.cls t = .idle) :
    (s.view.roster.setClass t cls).Ok cpu := by
  have ok := stands.roster.recast inside live idleTd
  have free : ¬s.view.roster.queued t := fun queued => queued.elim rests.1 rests.2
  have away : ¬s.view.roster.tdState t = .running := rests.2
  rw [show s.view.roster.takeOff t = s.view.roster from if_neg free] at ok
  simpa [Roster.putOn, free, away] using ok

variable (priClass) in
/-- The class of a thread that rests changes, and with it perhaps its vruntime. -/
theorem recast_reached (stands : Stands C s (some s.curthread)) (inside : t < s.view.nthreads)
    (live : s.view.exited t = false) (rests : s.view.resting t)
    (idleTd : cls = .idle → s.view.idleTd t ∨ s.view.cls t = .idle)
    (micro : Micro C s s') (view : s'.view = (storeClass s t priClass cls).view) : Reached C s s' := by
  obtain ⟨apart, off⟩ := resting_detached stands inside live rests
  have current : s'.curthread = s.curthread := by
    have same := congrArg View.curthread view
    rw [storeClass_view] at same
    exact same
  refine ⟨.one stands.inv micro, ?_, ?_⟩
  · have chain : currentOn s' (some s.curthread) = currentOn s (some s.curthread) := by
      refine (currentOn_congr (c := some s.curthread) (congrArg View.frame view) fun u _ => by rw [view]).trans ?_
      exact currentOn_storeClass off
    rw [current, chain]
    exact (storeClass_inv priClass cls stands.inv apart).of_bones (by rw [view])
  · rw [current, view, storeClass_view]
    exact setClass_ok stands inside live rests idleTd

theorem schedClass_resting (stands : Stands C s (some s.curthread)) (inside : t < s.view.nthreads)
    (live : s.view.exited t = false) (rests : s.view.resting t)
    (idleTd : cls = .idle → s.view.idleTd t ∨ s.view.cls t = .idle) (idleness : IdlenessKept C s t priClass cls)
    (marks : C.positive → C.marks → s.view.initial (.thread t) → s.view.cls t ≠ .pss → cls = .pss →
      ∀ e, preemptMark (storeClass s t priClass cls) t = some e → s.view.joined e)
    (run : checkClassChanged (storeClass s t priClass cls) t (s.view.cls t) = some s') : Reached C s s' := by
  obtain ⟨apart, off⟩ := resting_detached stands inside live rests
  have now : ((storeClass s t priClass cls).td t).cls = cls := by simp [storeClass, State.modTd]
  have asleep : sleeping (storeClass s t priClass cls) t = !s.view.initial (.thread t) := by
    have still : ((storeClass s t priClass cls).td t).tdState = s.view.tdState t := by
      simp [storeClass, State.modTd]
    unfold sleeping
    rw [still]
    simp [rests.1, rests.2, storeClass, State.modTd]
  unfold checkClassChanged at run
  rw [now] at run
  by_cases initial : s.view.initial (.thread t) = true
  · have first : Reached C s (storeClass s t priClass cls) :=
      recast_reached priClass stands inside live rests idleTd
        (.recast t priClass cls rfl apart idleness fun _ => .inl initial) rfl
    have awake : sleeping (storeClass s t priClass cls) t = false := by rw [asleep, initial]; rfl
    split at run
    · cases run
      exact first
    · rename_i other
      have from_ : (if s.view.cls t = .pss then pssSwitchedFrom (storeClass s t priClass cls) t
          else storeClass s t priClass cls) = storeClass s t priClass cls := by
        split
        · simp [pssSwitchedFrom, awake]
        · rfl
      rw [from_] at run
      dsimp only at run
      rw [now] at run
      split at run
      · rename_i pss
        unfold pssSwitchedTo at run
        rw [awake] at run
        simp only [Bool.false_eq_true, if_false] at run
        have stands' : Stands C (storeClass s t priClass cls) (some (storeClass s t priClass cls).curthread) := first.2
        split at run
        · cases run
          exact first.trans (((reschedThread_unseen _ t).reaches stands'.inv).reached stands')
        · refine first.trans ((checkPreemptCurr_reaches stands'.inv (fun positive marked e mark => ?_) run).reached stands')
          have old := marks positive marked initial (fun same => other (same.trans pss.symm)) pss e mark
          rw [storeClass_view]
          exact old
      · cases run
        exact first
  · have started : s.view.initial (.thread t) = false := by simpa using initial
    have sleeps : sleeping (storeClass s t priClass cls) t = true := by rw [asleep, started]; rfl
    split at run
    · rename_i same
      cases run
      exact recast_reached priClass stands inside live rests idleTd
        (.recast t priClass cls rfl apart idleness fun _ => .inr (.inr (by rw [same]))) rfl
    · rename_i other
      by_cases old : s.view.cls t = .pss
      · rw [if_pos old] at run
        have new : cls ≠ .pss := fun same => other (old.trans same.symm)
        have left : pssSwitchedFrom (storeClass s t priClass cls) t =
            subVtime (placeEntity (storeClass s t priClass cls) ((storeClass s t priClass cls).ent (.thread t)).sfq (.thread t))
              ((storeClass s t priClass cls).ent (.thread t)).sfq (.thread t) := by
          simp [pssSwitchedFrom, sleeps]
        have view : (pssSwitchedFrom (storeClass s t priClass cls) t).view = (storeClass s t priClass cls).view := by
          rw [left]
          simp
        have cls' : ((pssSwitchedFrom (storeClass s t priClass cls) t).td t).cls ≠ .pss := by
          rw [show ((pssSwitchedFrom (storeClass s t priClass cls) t).td t).cls = cls from
            (congrFun (congrArg View.cls view) t).trans now]
          exact new
        rw [if_neg cls'] at run
        cases run
        exact recast_reached priClass stands inside live rests idleTd
          (.switchedFrom t priClass cls rfl apart idleness ⟨⟨old, .inr ⟨started, rests⟩⟩, new⟩) view
      · rw [if_neg old] at run
        dsimp only at run
        rw [now] at run
        split at run
        · rename_i pss
          subst pss
          unfold pssSwitchedTo at run
          rw [sleeps, if_pos rfl] at run
          cases run
          refine recast_reached priClass stands inside live rests idleTd
            (.switchedTo t priClass ?_ apart idleness ⟨old, started, rests⟩) ?_
          · rw [show ((storeClass s t priClass .pss).ent (.thread t)).sfq = s.view.sfq (.thread t) from rfl]
          · simp
        · rename_i new
          cases run
          exact recast_reached priClass stands inside live rests idleTd
            (.recast t priClass cls rfl apart idleness fun _ => .inr (.inr (iff_of_false old new))) rfl

/-- A thread that is put on again as it was taken off is queued as before. -/
theorem Roster.recast_queued {r : Roster} (queued : r.queued t) (was : r.cls t ≠ .idle → (r.takeOff t).tdState t = r.tdState t) :
    (((r.takeOff t).setClass t cls).putOn t (r.queued t) (r.tdState t = .running)).queued t := by
  obtain ⟨_, state, _⟩ := Roster.putOn_self ((r.takeOff t).setClass t cls) t (r.queued t) (r.tdState t = .running)
  by_cases running : r.tdState t = .running
  · exact .inr (state.trans (if_pos running))
  · refine .inl (state.trans ?_)
    rw [if_neg running]
    split
    · rfl
    · have runq : r.tdState t = .runq := queued.resolve_right running
      have kept : ((r.takeOff t).setClass t cls).tdState t = (r.takeOff t).tdState t := rfl
      rw [kept]
      by_cases idle : r.cls t = .idle
      · rw [Roster.takeOff]
        simp [Roster.queued, idle, runq]
      · exact (was idle).trans runq

/-- `put_prev_thread` with the class of a thread that was just dequeued. -/
theorem putPrev_class {a b : State} (stands : Stands C s cpu) (inside : t < s.view.nthreads) (live : s.view.exited t = false)
    (deq : (if s.view.tdState t = .runq ∨ s.view.tdState t = .running
      then classDequeueThread (s.view.cls t) s t 0 else some s) = some a)
    (put : (if s.view.tdState t = .running then classPutPrevThread (s.view.cls t) a t 0 else some a) = some b) :
    (if s.view.tdState t = .running then putPrevThread a t 0 else some a) = some b := by
  have fits := stands.roster.live t inside live
  split at put
  · rename_i running
    rw [if_pos running]
    rw [if_pos (.inr running)] at deq
    have joined (other : s.view.cls t ≠ .idle) : s.view.joined (.thread t) := (fits.joined other).mpr (.inr running)
    have reaches := dequeue_reaches stands Clocks.still joined (fun pss isForked => by
      refine ⟨fits.started isForked (joined (by simp [pss])), iff_of_false (by simp) ?_⟩
      simp [View.resting, running]) deq
    have cls : a.view.cls t = s.view.cls t := by
      refine congrFun ((congrArg Roster.cls reaches.roster).trans ?_) t
      split <;> rfl
    have apart : a.view.joined (.thread t) = false := by
      refine (congrFun (congrArg Roster.joined reaches.roster) t).trans ?_
      split
      · rename_i idle
        exact fits.idle idle
      · simp [Roster.detach]
    rw [putPrevThread_apart apart, cls]
    exact put
  · rename_i away
    rw [if_neg away]
    exact put

theorem schedClass_queued {a b d e : State} (stands : Stands C s (some s.curthread)) (inside : t < s.view.nthreads)
    (live : s.view.exited t = false) (queued : s.view.roster.queued t)
    (idleTd : cls = .idle → s.view.idleTd t ∨ s.view.cls t = .idle) (idleness : IdlenessKept C s t priClass cls)
    (deq : (if s.view.tdState t = .runq ∨ s.view.tdState t = .running
      then classDequeueThread (s.view.cls t) s t 0 else some s) = some a)
    (put : (if s.view.tdState t = .running then classPutPrevThread (s.view.cls t) a t 0 else some a) = some b)
    (enq : (if s.view.tdState t = .runq ∨ s.view.tdState t = .running
      then classEnqueueThread cls (storeClass b t priClass cls) t 0 else some (storeClass b t priClass cls)) = some e)
    (act : (if s.view.tdState t = .running then (classActivateThread cls e t).map fun s => setTdState s t .running
      else some e) = some d)
    (run : checkClassChanged d t (s.view.cls t) = some s') : Reached C s s' := by
  have fits := stands.roster.live t inside live
  have put' := putPrev_class stands inside live deq put
  have off := takeOff_reaches stands Clocks.still inside live deq put'
  obtain ⟨apart, busy⟩ := takenOff_detached stands inside live off
  have same : (b.td t).tdPriClass = (s.td t).tdPriClass := by
    have first : (a.td t).tdPriClass = (s.td t).tdPriClass := by
      split at deq
      · exact (classDequeueThread_charges deq).priClass t
      · cases deq
        rfl
    refine Eq.trans ?_ first
    split at put
    · exact (classPutPrevThread_charges put).priClass t
    · cases put
      rfl
  have idleness' : IdlenessKept C b t priClass cls := by
    have kept : b.view.cls t = s.view.cls t :=
      (congrFun (congrArg Roster.cls off.roster) t).trans (Roster.takeOff_self s.view.roster t).1
    unfold IdlenessKept
    rw [same, kept]
    exact idleness
  obtain ⟨_, _, state⟩ := stands.roster.takeOff inside live
  have form (isForked : forked t) : b.view.initial (.thread t) ∨ ¬b.view.resting t ∨ (b.view.cls t = .pss ↔ cls = .pss) := by
    refine .inr (.inl fun rests => ?_)
    have other : s.view.roster.cls t ≠ .idle := fun idle => not_forked_one (fits.only idle ▸ isForked)
    have kept : b.view.tdState t = s.view.tdState t := (congrFun (congrArg Roster.tdState off.roster) t).trans (state other)
    unfold View.resting at rests
    rw [kept] at rests
    exact queued.elim rests.1 rests.2
  have away (u : Tid) (member : EntId.thread u ∈ (if some s.curthread = some t then [] else currentOn s (some s.curthread))) :
      u ≠ t := by
    rintro rfl
    exact apart.away _ ((off.inv.core.curr _ _).mpr ⟨member, rfl⟩)
  have view := storeClass_view b t priClass cls
  have frame : (storeClass b t priClass cls).view.frame = b.view.frame := by rw [view]; rfl
  have inv := storeClass_inv priClass cls off.inv apart
  have busy' : Busy (storeClass b t priClass cls) (if some s.curthread = some t then [] else currentOn s (some s.curthread)) := by
    refine busy.congr frame fun u member seated => ⟨?_, ?_⟩
    · rw [view]
      exact seated.1
    · rw [view]
      have other := away u member
      have old : b.view.cls u = .pss := seated.2
      simp [View.setClass, EntId.pss, other, old]
  have roster : (storeClass b t priClass cls).view.roster = (s.view.roster.takeOff t).setClass t cls := by
    rw [view, ← off.roster]
    rfl
  have now : (storeClass b t priClass cls).view.cls t = cls := by rw [view]; simp [View.setClass]
  have enq' : (if s.view.tdState t = .runq ∨ s.view.tdState t = .running
      then classEnqueueThread ((storeClass b t priClass cls).view.cls t) (id (storeClass b t priClass cls)) t 0
      else some (storeClass b t priClass cls)) = some e := by
    rw [now]
    exact enq
  have out : (storeClass b t priClass cls).view.joined (.thread t) = false := by
    rw [view]
    exact apart.apart
  have inside' : t < (storeClass b t priClass cls).view.nthreads := by
    rw [view]
    exact apart.inside
  have relative (_ : s.view.tdState t = .runq ∨ s.view.tdState t = .running)
      (_ : (storeClass b t priClass cls).view.cls t = .pss) (isForked : forked t) :
      ¬(storeClass b t priClass cls).view.absolute t := by
    rintro ⟨_, joined | ⟨_, rests⟩⟩
    · exact Bool.noConfusion (out.symm.trans joined)
    · have other : s.view.roster.cls t ≠ .idle := fun idle => not_forked_one (fits.only idle ▸ isForked)
      have kept : (storeClass b t priClass cls).view.tdState t = s.view.tdState t := by
        rw [view]
        exact (congrFun (congrArg Roster.tdState off.roster) t).trans (state other)
      unfold View.resting at rests
      rw [kept] at rests
      exact queued.elim rests.1 rests.2
  have class_e : (e.td t).cls = cls := by
    have reaches := putOn_reaches inv busy' Clocks.still inside' out relative
      False.elim enq' (b := e) (if_neg id)
    have kept : e.view.cls t = (storeClass b t priClass cls).view.cls t := by
      refine (congrFun (congrArg Roster.cls reaches.roster) t).trans ?_
      exact (Roster.putOn_self ..).2.2.1
    exact kept.trans now
  have act' : (if s.view.tdState t = .running then (activateThread e t).map fun s => setTdState s t .running
      else some e) = some d := by
    unfold activateThread
    rw [class_e]
    exact act
  have store : Path C b (storeClass b t priClass cls) := .one off.inv (.recast t priClass cls rfl apart idleness' form)
  have first := reattach stands inside live off inv busy' roster (fun offCpu => ?_) idleTd Clocks.still enq' act'
  · obtain ⟨path, stands', current, _, eq⟩ := first
    have current' : d.curthread = s.curthread := current
    have queued' : d.view.roster.queued t := by
      rw [eq]
      exact Roster.recast_queued queued state
    have beside := ((Roster.takeOff_beside s.view.roster t).trans (Roster.setClass_beside _ t cls)).trans
      (Roster.putOn_beside _ t (s.view.roster.queued t) (s.view.roster.tdState t = .running))
    rw [← eq] at beside
    have live' : d.view.exited t = false := by
      refine (congrFun (congrArg Roster.exited eq) t).trans ?_
      refine (Roster.putOn_self ..).2.2.2.2.1.trans ?_
      exact (Roster.takeOff_self s.view.roster t).2.2.trans live
    have inside'' : t < d.view.nthreads := by
      rw [show d.view.nthreads = s.view.nthreads from beside.nthreads]
      exact inside
    rw [← current'] at stands'
    have second := checkClassChanged_queued stands' inside'' live'
      (fun rests => queued'.elim rests.1 rests.2) run
    exact ⟨(off.path.trans (store.trans path)).trans second.1, second.2⟩
  · refine (currentOn_congr (c := some s.curthread) (frame.trans off.frame) fun u taken => ?_)
    have other : u ≠ t := by
      rintro rfl
      exact offCpu taken
    have kept : b.view.cls u = s.view.cls u :=
      (congrFun (congrArg Roster.cls off.roster) u).trans ((Roster.takeOff_beside s.view.roster t).cls u other)
    rw [view]
    simpa [View.setClass, other] using kept

theorem schedClass_reached (stands : Stands C s (some s.curthread)) (inside : t < s.view.nthreads)
    (live : s.view.exited t = false)
    (idleness : (s.td t).tdPriClass ≠ priClass → IdlenessKept C s t priClass (getSchedClass s t priClass))
    (marks : C.positive → C.marks → s.view.resting t → s.view.initial (.thread t) → s.view.cls t ≠ .pss →
      getSchedClass s t priClass = .pss →
      ∀ e, preemptMark (storeClass s t priClass .pss) t = some e → s.view.joined e)
    (run : schedClass s t priClass = some s') : Reached C s s' := by
  have idleTd : getSchedClass s t priClass = .idle → s.view.idleTd t ∨ s.view.cls t = .idle := by
    unfold getSchedClass
    split
    · exact fun never => SchedClass.noConfusion never
    · exact fun never => SchedClass.noConfusion never
    · exact fun never => SchedClass.noConfusion never
    · exact fun never => SchedClass.noConfusion never
    · split
      · rename_i isIdle
        exact fun _ => .inl isIdle
      · exact fun never => SchedClass.noConfusion never
  unfold schedClass at run
  split at run
  · cases run
    exact ⟨.refl s, stands⟩
  · rename_i other
    by_cases running : (s.td t).tdState = .running
    · simp only [running, reduceCtorEq, or_true, if_true] at run
      obtain ⟨a, deq, run⟩ := Option.bind_eq_some_iff.mp run
      obtain ⟨b, put, run⟩ := Option.bind_eq_some_iff.mp run
      obtain ⟨e, enq, run⟩ := Option.bind_eq_some_iff.mp run
      obtain ⟨d, act, check⟩ := Option.bind_eq_some_iff.mp run
      exact schedClass_queued stands inside live (.inr running) idleTd (idleness other) ((if_pos (.inr running)).trans deq)
        ((if_pos running).trans put) ((if_pos (.inr running)).trans enq) ((if_pos running).trans act) check
    · by_cases queued : (s.td t).tdState = .runq
      · simp only [queued, reduceCtorEq, or_false, if_true, if_false] at run
        obtain ⟨a, deq, run⟩ := Option.bind_eq_some_iff.mp run
        obtain ⟨_, ⟨⟩, run⟩ := Option.bind_eq_some_iff.mp run
        obtain ⟨e, enq, run⟩ := Option.bind_eq_some_iff.mp run
        obtain ⟨_, ⟨⟩, check⟩ := Option.bind_eq_some_iff.mp run
        exact schedClass_queued stands inside live (.inl queued) idleTd (idleness other) ((if_pos (.inl queued)).trans deq)
          (if_neg running) ((if_pos (.inl queued)).trans enq) (if_neg running) check
      · simp only [running, queued, or_self, if_false] at run
        refine schedClass_resting stands inside live ⟨queued, running⟩ idleTd (idleness other)
          (fun positive marked initial old pss => ?_) run
        rw [pss]
        exact marks positive marked ⟨queued, running⟩ initial old pss

end change
end SfqSched
