import SfqSched.Reattach

namespace SfqSched
open State Function

namespace Roster

def start (r : Roster) (t : Nat) : Roster := { r with initial := update r.initial t false }

theorem start_beside (r : Roster) (t : Nat) : Beside r (r.start t) t := by
  constructor <;> intros <;> simp_all [start]

/-- A thread that rests is made runnable. -/
theorem Ok.add {r : Roster} {cpu : Option Nat} {t : Nat} (ok : r.Ok cpu) (inside : t < r.nthreads)
    (live : r.exited t = false) (other : r.cls t ≠ .idle) (rests : ¬r.queued t) :
    (((r.setState t .canRun).start t).attach t).Ok cpu := by
  have fits := ok.live t inside live
  have off : cpu ≠ some t := fun onCpu => rests (.inr (fits.running.mpr onCpu))
  have apart : r.joined t = false := by
    by_contra joined
    exact rests ((fits.joined other).mp (by simpa using joined))
  have counted : ((r.setState t .canRun).start t).Counted := ok.counted.congr rfl rfl rfl rfl
  refine ok.replace (((setState_beside r t _).trans (start_beside _ t)).trans (attach_beside _ t)) (counted.attach apart)
    inside (fun _ => ?_) (fun gone => ?_) (fun _ _ => Iff.rfl)
  · exact {
      running := by simp [attach, off]
      idle := fun idle => absurd idle other
      joined := fun _ => by simp [attach]
      started := fun _ _ => by simp [attach, start]
      only := fits.only
      idleTd := fits.idleTd }
  · simp [attach, start, setState, live] at gone

end Roster

section add
variable {C : Conds} {s s' : State} {L : List EntId} {t : Tid} {flags : Nat}

/-- What `check_preempt_curr` makes a candidate lies on the chain of the new thread. -/
theorem preemptMark_joined (inv : Inv C s L none) (positive : C.positive) (joined : s.view.joined (.thread t)) :
    ∀ e, preemptMark s t = some e → s.view.joined e := by
  intro e mark
  have same := checkPriorityPreempt_unseen s t
  unfold preemptMark at mark
  dsimp only at mark
  split at mark
  · rename_i both
    have pss : s.view.cls t = .pss := by
      rw [← same.1]
      exact both.2
    have chain := (inv.tight positive).chain inv.core
      (inv.core.hier.chain (e := .thread t) (Nat.lt_succ_self _)) ⟨joined, pss⟩
    have walk : walkup (checkPriorityPreempt s t) (some (.thread t)) = walkup s (some (.thread t)) :=
      View.chain_congr (congrArg View.frame same.1) _
    unfold preemptCandidate at mark
    dsimp only at mark
    split at mark
    · cases mark
    · split at mark
      · split at mark
        · cases mark
          exact joined
        · cases mark
      · obtain ⟨⟨curr, se⟩, found, mark⟩ := Option.bind_eq_some_iff.mp mark
        dsimp only at mark
        split at mark
        · cases mark
          have above := (findCommonAncestor_mem found).2
          rw [walk] at above
          exact (chain _ above).1
        · cases mark
  · cases mark

/-- The thread's first enqueue, or one after a sleep. -/
theorem initial_reaches (inv : Inv C s L none) (busy : Busy s L) (inside : t < s.view.nthreads)
    (apart : s.view.joined (.thread t) = false) (rests : s.view.resting t) {a : State} (other : s.view.cls t ≠ .idle)
    (run : enqueueThread (s.modEnt (.thread t) fun se => { se with initial := false }) t
      (if (s.ent (.thread t)).initial then 0 else enqueueWakeup) = some a) :
    Reaches C s a L ((s.view.roster.start t).attach t) := by
  have view : (s.modEnt (.thread t) fun se => { se with initial := false }).view =
      { s.view with initial := update s.view.initial (.thread t) false } := by
    rw [view_modEnt]
    simp
  have roster : (s.modEnt (.thread t) fun se => { se with initial := false }).view.roster = s.view.roster.start t := by
    rw [view]
    simp [View.roster, Roster.start, update_thread]
  have steady : Steady s (s.modEnt (.thread t) fun se => { se with initial := false }) :=
    .modEnt _ _ _ (fun _ _ _ => rfl) rfl
  have books : (s.modEnt (.thread t) fun se => { se with initial := false }).books = s.books := by
    rw [books_modEnt]
    simp
  generalize started : (s.modEnt (.thread t) fun se => { se with initial := false }) = b at run view roster steady books
  have frame : b.view.frame = s.view.frame := by rw [view]; rfl
  have inv' : Inv C b L none := inv.of_bones (by rw [view]; rfl)
  have busy' : Busy b L := busy.congr frame fun u _ there => by rw [view]; exact there
  have tick := updateRqClock_reaches inv' busy'
  have time : TimeFits C b.view := busy'.time inv'
  have cls : b.view.cls = s.view.cls := by rw [view]
  have joined : b.view.joined = s.view.joined := by rw [view]
  have nthreads : b.view.nthreads = s.view.nthreads := by rw [view]
  have step : classEnqueueThread ((updateRqClock b).view.cls t) (updateRqClock b) t
      (if (s.ent (.thread t)).initial then 0 else enqueueWakeup) = some a := run
  by_cases initial : (s.ent (.thread t)).initial = true
  · have initial' : s.view.initial (.thread t) := initial
    rw [if_pos initial] at step
    by_cases pss : s.view.cls t = .pss
    · have pss' : (updateRqClock b).view.cls t = .pss := (congrFun cls t).trans pss
      rw [pss'] at step
      have fits : EnqueueFits C (updateRqClock b).view (.thread t) := by
        refine ⟨pss', by simpa [EntId.valid, nthreads] using inside, fun which current => ?_, by simp⟩
        have there := time _ _ current which
        rw [joined, apart] at there
        cases there
      have fits₀ : EnqueueFits C s.view (.thread t) := by
        refine ⟨pss, inside, fun which current => ?_, by simp⟩
        have there := busy.time inv _ _ current which
        rw [apart] at there
        cases there
      have away : (updateRqClock b).view.joined (.thread t) = false := (congrFun joined _).trans apart
      have sfq : (updateRqClock b).view.sfq (.thread t) = s.view.sfq (.thread t) := congrFun (congrArg View.Frame.sfq frame) _
      obtain ⟨_, done, reaches⟩ := pssEnqueueThread_after (C := C) (s := s) inv tick.inv (tick.frame.trans frame) time away
        fits (fun s₁ first => .start t 0 initial' (by rw [started, ← sfq]; exact first) (busy.time inv) fits₀ (by decide))
      cases done.symm.trans step
      have eq : (updateRqClock b).view.roster = s.view.roster.start t := roster
      rw [eq] at reaches
      exact reaches
    · have rt : s.view.cls t = .realtime := by
        cases which : s.view.cls t with
        | realtime => rfl
        | pss => exact absurd which pss
        | idle => exact absurd which other
      have still : Quiet s b := by
        refine .other (t := t) pss books steady nthreads cls ?_ ?_ ?_ ?_ ?_ ?_ ?_ ?_ <;> rw [view] <;> try exact rfl
        · intro e _
          rfl
        · intro u apart
          simp [apart]
        · intro u _
          rfl
      have cls' : (updateRqClock b).view.cls t = .realtime := (congrFun cls t).trans rt
      rw [cls'] at step
      have second := rtEnqueueThread_reaches tick.inv cls' (by simpa [nthreads] using inside) step
      have eq : (updateRqClock b).view.roster = s.view.roster.start t := roster
      rw [eq] at second
      exact (tick.trans second).after (.quiet inv still) frame
  · have initial' : s.view.initial (.thread t) = false := by simpa using initial
    have same : b.view = s.view := by
      rw [view, ← initial', update_eq_self]
    rw [if_neg initial] at step
    have second := classEnqueueThread_reaches tick.inv time (by simpa [nthreads] using inside)
      ((congrFun joined _).trans apart) (fun pss _ => ?_) step
    · rw [if_neg (by rw [show (updateRqClock b).view.cls t = s.view.cls t from congrFun cls t]; exact other)] at second
      have eq : (updateRqClock b).view.roster = s.view.roster.start t := roster
      rw [eq] at second
      exact (tick.trans second).after (.quiet inv (.of_view same books steady)) frame
    · refine iff_of_true (by decide) ?_
      have absolute : s.view.absolute t := ⟨(congrFun cls t).symm.trans pss, .inr ⟨initial', rests⟩⟩
      have look : (updateRqClock b).view = s.view := same
      rw [look]
      exact absolute

/-- The state in which `sched_add` calls `check_preempt_curr`. -/
def queuedState (s : State) (t : Tid) : Option State :=
  enqueueThread (s.modEnt (.thread t) fun se => { se with initial := false }) t
    (if (s.ent (.thread t)).initial then 0 else enqueueWakeup)

theorem schedAdd_eq (s : State) (t : Tid) : schedAdd s t = (queuedState s t).bind fun s => checkPreemptCurr s t := rfl

/-- The enqueue of `sched_add`, before the new thread is compared with the running one. -/
theorem queuedState_reaches (stands : Stands C s (some s.curthread)) (inside : t < s.view.nthreads)
    (live : s.view.exited t = false) (notIdle : t ≠ 1) (rests : s.view.resting t)
    (run : queuedState (setTdState s t .canRun) t = some s') :
    Reaches C s s' (currentOn s (some s.curthread)) (((s.view.roster.setState t .canRun).start t).attach t) := by
  have fits := stands.roster.live t inside live
  have other : s.view.cls t ≠ .idle := fun idle => notIdle (fits.only idle)
  have apart : s.view.joined (.thread t) = false := by
    by_contra joined
    rcases (fits.joined other).mp (by simpa [View.roster] using joined) with runq | running
    · exact rests.1 runq
    · exact rests.2 running
  have wake : Reaches C s (setTdState s t .canRun) _ _ := setTdState_reaches stands.inv
    (.inr (.inr (.inr (iff_of_true rests (by simp)))))
  have same : (setTdState s t .canRun).view.roster = s.view.roster.setState t .canRun := wake.roster
  have cls : (setTdState s t .canRun).view.cls = s.view.cls := congrArg Roster.cls same
  have joined : (setTdState s t .canRun).view.joined (.thread t) = false := (congrFun (congrArg Roster.joined same) t).trans apart
  have busy : Busy (setTdState s t .canRun) (currentOn s (some s.curthread)) := by
    refine stands.busy.congr wake.frame fun u _ seated => ⟨?_, ?_⟩
    · exact (congrFun (congrArg Roster.joined same) u).trans seated.1
    · exact (congrFun cls u).trans seated.2
  have state : (setTdState s t .canRun).view.resting t := by
    have now : (setTdState s t .canRun).view.tdState t = .canRun := by
      refine (congrFun (congrArg Roster.tdState same) t).trans ?_
      simp [Roster.setState]
    unfold View.resting
    rw [now]
    simp
  have inside' : t < (setTdState s t .canRun).view.nthreads := by
    rw [show (setTdState s t .canRun).view.nthreads = s.view.nthreads from congrArg Roster.nthreads same]
    exact inside
  have second := initial_reaches wake.inv busy inside' joined state (by rw [cls]; exact other) run
  rw [same] at second
  exact wake.trans second

theorem schedAdd_reached (stands : Stands C s (some s.curthread)) (inside : t < s.view.nthreads)
    (live : s.view.exited t = false) (notIdle : t ≠ 1) (rests : s.view.resting t)
    (run : schedAdd (setTdState s t .canRun) t = some s') : Reached C s s' := by
  have fits := stands.roster.live t inside live
  have other : s.view.cls t ≠ .idle := fun idle => notIdle (fits.only idle)
  rw [schedAdd_eq] at run
  obtain ⟨a, enqueue, check⟩ := Option.bind_eq_some_iff.mp run
  have both := queuedState_reaches stands inside live notIdle rests enqueue
  have there : a.view.joined (.thread t) := by
    refine (congrFun (congrArg Roster.joined both.roster) t).trans ?_
    simp [Roster.attach]
  have third := checkPreemptCurr_reaches both.inv (fun positive _ => preemptMark_joined both.inv positive there) check
  have all := both.trans third
  have roster : s'.view.roster = ((s.view.roster.setState t .canRun).start t).attach t := third.roster.trans both.roster
  have current : s'.curthread = s.curthread := congrArg Roster.curthread roster
  refine ⟨all.path, ?_, ?_⟩
  · rw [current, currentOn_congr (c := some s.curthread) all.frame fun u _ => congrFun (congrArg Roster.cls roster) u]
    exact all.inv
  · rw [current, roster]
    exact stands.roster.add inside live other (fun queued => queued.elim rests.1 rests.2)

end add
end SfqSched
