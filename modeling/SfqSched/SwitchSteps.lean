import SfqSched.PrioritySteps

namespace SfqSched
open State Function

namespace Roster
variable {r : Roster} {t : Nat}

/-- The thread on the CPU leaves it and is queued again, or is the idle thread. -/
theorem Ok.yield (ok : r.Ok (some t)) :
    (if r.cls t = .idle then r.setState t .canRun else r.putBack (.thread t)).Ok none := by
  obtain ⟨inside, live⟩ := ok.current t rfl
  have fits := ok.live t inside live
  have running := fits.running.mpr rfl
  have others (u : Nat) (other : u ≠ t) : none = some u ↔ some t = some u := by simp [Ne.symm other]
  split
  · rename_i idle
    refine ok.replace (setState_beside r t _) (ok.counted.congr rfl rfl rfl rfl) inside (fun _ => ?_)
      (fun gone => ?_) others
    · exact {
        running := by simp [setState]
        idle := fits.idle
        joined := fun other => absurd idle other
        started := fits.started
        only := fits.only
        idleTd := fits.idleTd }
    · simp [setState, live] at gone
  · rename_i other
    have joined := (fits.joined other).mpr (.inr running)
    simp only [putBack, joined, if_true]
    refine ok.replace (setState_beside r t _) (ok.counted.congr rfl rfl rfl rfl) inside (fun _ => ?_)
      (fun gone => ?_) others
    · exact {
        running := by simp [setState]
        idle := fits.idle
        joined := fun _ => by simp [setState, joined]
        started := fits.started
        only := fits.only
        idleTd := fits.idleTd }
    · simp [setState, live] at gone

/-- The thread on the CPU leaves it and goes to sleep. -/
theorem Ok.sleep (ok : r.Ok (some t)) (other : r.cls t ≠ .idle) :
    ((r.setState t .inhibited).detach t).Ok none := by
  obtain ⟨inside, live⟩ := ok.current t rfl
  have fits := ok.live t inside live
  have joined := (fits.joined other).mpr (.inr (fits.running.mpr rfl))
  have counted : (r.setState t .inhibited).Counted := ok.counted.congr rfl rfl rfl rfl
  refine ok.replace ((setState_beside r t _).trans (detach_beside _ t)) (counted.detach joined) inside (fun _ => ?_)
    (fun gone => ?_) (fun u apart => by simp [Ne.symm apart])
  · exact {
      running := by simp [detach, setState]
      idle := fun _ => by simp [detach]
      joined := fun _ => by simp [detach, setState]
      started := fun _ => by simp [detach]
      only := fits.only
      idleTd := fits.idleTd }
  · simp [detach, setState, live] at gone

/-- The thread on the CPU exits. -/
theorem Ok.die {r' : Roster} (ok : r.Ok (some t)) (other : r.cls t ≠ .idle) (apart : t ≠ 1)
    (same : r' = { (r.detach t).setState t .inactive with exited := update r.exited t true }) : r'.Ok none := by
  subst same
  obtain ⟨inside, live⟩ := ok.current t rfl
  have fits := ok.live t inside live
  have joined := (fits.joined other).mpr (.inr (fits.running.mpr rfl))
  have beside : Beside r { (r.detach t).setState t .inactive with exited := update r.exited t true } t := by
    constructor <;> intros <;> simp_all [detach, setState]
  refine ok.replace beside ((ok.counted.detach joined).congr rfl rfl rfl rfl) inside (fun alive => ?_) (fun _ => ?_)
    (fun u apart => by simp [Ne.symm apart])
  · simp at alive
  · exact ⟨by simp [detach, setState], apart, by simp⟩

end Roster

section switch
variable {C : Conds} {s s' : State} {t : Tid} {flags : Nat}

theorem putPrevThread_reaches (inv : Inv C s (cpuChain s t) none) (run : putPrevThread s t flags = some s') :
    Reaches C s s' [] (if s.view.cls t = .idle then s.view.roster.setState t .canRun
      else s.view.roster.putBack (.thread t)) := by
  unfold putPrevThread at run
  dsimp only at run
  split at run
  · rename_i joined
    have busy : Busy s (cpuChain s t) := by
      unfold cpuChain
      split
      · rename_i pss
        exact .inr ⟨t, rfl, joined, pss⟩
      · exact .inl rfl
    have first := updateRqClock_reaches inv busy
    exact first.trans (classPutPrevThread_reaches (s := updateRqClock s) first.inv run)
  · exact classPutPrevThread_reaches inv run

theorem clearResched_unseen (s : State) (t : Tid) :
    Unseen s (s.modTd t fun td => { td with needResched := false, owePreempt := false }) :=
  .modTd _ _ _ ⟨rfl, rfl, rfl, rfl, rfl, rfl⟩ rfl rfl

/-- What an operation leaves: its steps, and the thread now on the CPU. -/
def Reached (C : Conds) (s s' : State) : Prop := Path C s s' ∧ Stands C s' (some s'.curthread)

theorem schedSwitch_running (stands : Stands C s (some t)) (run : schedSwitch s t flags = some s') :
    Reached C s s' := by
  have unseen := clearResched_unseen s t
  have cleared := unseen.reaches stands.inv
  obtain ⟨inside, live⟩ := stands.roster.current t rfl
  have running : s.view.tdState t = .running := (stands.roster.live t inside live).running.mpr rfl
  unfold schedSwitch at run
  dsimp only at run
  have state : ((s.modTd t fun td => { td with needResched := false, owePreempt := false }).td t).tdState = .running :=
    (congrFun (congrArg View.tdState unseen.1) t).trans running
  rw [if_pos state] at run
  obtain ⟨a, leave, choose⟩ := Option.bind_eq_some_iff.mp run
  have inv : Inv C (s.modTd t fun td => { td with needResched := false, owePreempt := false })
      (cpuChain (s.modTd t fun td => { td with needResched := false, owePreempt := false }) t) none := by
    rw [show cpuChain _ t = currentOn s (some t) from
      currentOn_congr (c := some t) cleared.frame fun u _ => by rw [unseen.1]]
    exact cleared.inv
  have left := putPrevThread_reaches inv leave
  rw [unseen.1] at left
  obtain ⟨path, settled⟩ := chooseThread_stands ⟨left.inv, left.roster ▸ stands.roster.yield⟩ choose
  exact ⟨cleared.path.trans (left.path.trans path), settled⟩

/-- A thread that is neither queued nor running any more leaves its queues and the CPU. -/
theorem leave_reaches {a b : State} {sleep : Nat} (inv : Inv C s (cpuChain s t) none) (other : s.view.cls t ≠ .idle)
    (joined : s.view.joined (.thread t)) (counted : s.view.roster.Counted)
    (form : forked t → s.view.initial (.thread t) = false ∧ (sleep &&& dequeueSleep ≠ 0 ↔ s.view.resting t))
    (deq : dequeueThread s t sleep = some a) (put : putPrevThread a t flags = some b) :
    Reaches C s b [] (s.view.roster.detach t) := by
  have busy : Busy s (cpuChain s t) := by
    unfold cpuChain
    split
    · rename_i pss
      exact .inr ⟨t, rfl, joined, pss⟩
    · exact .inl rfl
  have first := updateRqClock_reaches inv busy
  have second := classDequeueThread_reaches (s := updateRqClock s) (t := t) first.inv (fun _ => joined) counted
    (fun _ => form) deq
  have idle : (updateRqClock s).view.cls t ≠ .idle := other
  rw [if_neg idle] at second
  have both := first.trans second
  have cls : a.view.cls = s.view.cls := congrArg Roster.cls both.roster
  have apart : a.view.joined (.thread t) = false := by
    have same := congrFun (congrArg Roster.joined both.roster) t
    exact same.trans (by simp [Roster.detach])
  have inv' : Inv C a (cpuChain a t) none := by
    rw [show cpuChain a t = currentOn s (some t) from
      currentOn_congr (c := some t) both.frame fun u _ => by rw [cls]]
    exact both.inv
  have third := putPrevThread_reaches inv' put
  rw [cls, if_neg other] at third
  have out : a.view.roster.joined t = false := apart
  simp only [Roster.putBack, out, Bool.false_eq_true, if_false] at third
  rw [both.roster] at third
  exact both.trans third

theorem schedSwitch_sleeping (stands : Stands C s (some t)) (other : s.view.cls t ≠ .idle)
    (run : schedSwitch (setTdState s t .inhibited) t flags = some s') : Reached C s s' := by
  obtain ⟨inside, live⟩ := stands.roster.current t rfl
  have fits := stands.roster.live t inside live
  have joined : s.view.joined (.thread t) := (fits.joined other).mpr (.inr (fits.running.mpr rfl))
  have started (isForked : forked t) : s.view.initial (.thread t) = false := fits.started isForked joined
  have asleep : Reaches C s (setTdState s t .inhibited) _ _ := setTdState_reaches stands.inv (.inr (.inl joined))
  have unseen := clearResched_unseen (setTdState s t .inhibited) t
  have cleared := asleep.unseen unseen
  have state : ((setTdState s t .inhibited).modTd t fun td =>
      { td with needResched := false, owePreempt := false }).view.tdState t ≠ .running := by
    rw [unseen.1]
    simp
  unfold schedSwitch at run
  dsimp only at run
  rw [if_neg (by simpa using state)] at run
  obtain ⟨a, deq, run⟩ := Option.bind_eq_some_iff.mp run
  obtain ⟨b, put, choose⟩ := Option.bind_eq_some_iff.mp run
  have inv : Inv C ((setTdState s t .inhibited).modTd t fun td => { td with needResched := false, owePreempt := false })
      (cpuChain ((setTdState s t .inhibited).modTd t fun td =>
        { td with needResched := false, owePreempt := false }) t) none := by
    rw [show cpuChain _ t = currentOn s (some t) from
      currentOn_congr (c := some t) cleared.frame fun u _ => by rw [unseen.1]; simp]
    exact cleared.inv
  have left := leave_reaches inv (by rw [unseen.1]; simpa using other) (by rw [unseen.1]; simpa using joined)
    (by
      rw [cleared.roster]
      exact stands.roster.counted.congr rfl rfl rfl rfl)
    (fun isForked => by
      rw [unseen.1]
      refine ⟨by simpa using started isForked, iff_of_true (by decide) ?_⟩
      simp [View.resting]) deq put
  rw [cleared.roster] at left
  obtain ⟨path, settled⟩ := chooseThread_stands ⟨left.inv, left.roster ▸ stands.roster.sleep other⟩ choose
  exact ⟨cleared.path.trans (left.path.trans path), settled⟩

theorem schedThrow_reached (stands : Stands C s (some t)) (other : s.view.cls t ≠ .idle) (notIdle : t ≠ 1)
    (run : schedThrow s t = some s') : Reached C s s' := by
  obtain ⟨inside, live⟩ := stands.roster.current t rfl
  have fits := stands.roster.live t inside live
  have running : s.view.tdState t = .running := fits.running.mpr rfl
  have joined : s.view.joined (.thread t) := (fits.joined other).mpr (.inr running)
  unfold schedThrow at run
  obtain ⟨a, deq, run⟩ := Option.bind_eq_some_iff.mp run
  obtain ⟨b, put, choose⟩ := Option.bind_eq_some_iff.mp run
  have left := leave_reaches stands.inv other joined stands.roster.counted
    (fun isForked => ⟨fits.started isForked joined, iff_of_false (by simp) (by simp [View.resting, running])⟩) deq put
  have apart : ¬b.view.seated (.thread t) := by
    rintro ⟨still, _⟩
    have same := congrFun (congrArg Roster.joined left.roster) t
    have out : b.view.joined (.thread t) = false := same.trans (by simp [Roster.detach])
    exact Bool.noConfusion (out.symm.trans still)
  have micro : Micro C b _ := .exit t rfl apart
  dsimp only at choose
  generalize dead : ((b.modTd t fun td => { td with tdState := .inactive, exited := true }).modProc _ _) = d at choose
  have same : d = (b.modTd t fun td => { td with tdState := .inactive, exited := true }).modProc (b.td t).proc
      fun p => { p with threads := p.threads.filter (· ≠ t) } := by
    rw [← dead]
    simp [State.modTd]
  rw [← same] at micro
  have inv : Inv C d [] none := by
    refine left.inv.of_bones ?_
    rw [same]
    simp only [view_modProc, view_modTd]
    simp [View.bones]
  have roster : d.view.roster =
      { (s.view.roster.detach t).setState t .inactive with exited := update s.view.roster.exited t true } := by
    have exited : b.view.exited = s.view.exited := congrArg Roster.exited left.roster
    rw [← left.roster, same]
    simp only [view_modProc, view_modTd]
    simp [View.roster, Roster.setState, exited]
  obtain ⟨path, settled⟩ := chooseThread_stands ⟨inv, stands.roster.die other notIdle roster⟩ choose
  exact ⟨left.path.trans ((Path.one left.inv micro).trans path), settled⟩

end switch
end SfqSched
