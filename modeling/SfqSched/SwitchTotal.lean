import SfqSched.Hooks
import SfqSched.RunQueues

namespace SfqSched
open State Function

/-- No thread has the CPU, the run queues agree about every thread, what they cache is right and the idle thread is in the
idle class. -/
structure Choosable (C : Conds) (s : State) : Prop where
  stands : Stands C s none
  seats : ∀ t, (s.seat t).Fits
  pointed : s.pointed
  led : s.led
  home : s.view.cls s.view.idlethread = .idle

/-- What a run leaves to the next operation. -/
structure Ready (C : Conds) (s : State) : Prop where
  settled : Settled C s
  seated : Seated s
  pointed : s.pointed
  led : s.led

section choose
variable {C : Conds} {s a b : State} {t : Tid}

theorem Choosable.queues (choosable : Choosable C s) (positive : C.positive) : QueueFits s [] where
  core := choosable.stands.inv.core
  tight := choosable.stands.inv.tight positive
  seats c q e there := by
    obtain ⟨⟨joined, pss⟩, place⟩ := choosable.pointed c q e there
    exact ⟨joined, pss, place⟩
  leftmost := choosable.led

theorem Choosable.live (choosable : Choosable C s) (joined : s.view.joined (.thread t)) : s.view.exited t = false := by
  by_contra gone
  have inside : t < s.view.nthreads := choosable.stands.inv.core.valid _ joined
  have apart := choosable.stands.roster.dead t inside (by simpa [View.roster] using gone)
  exact Bool.noConfusion (apart.symm.trans joined)

theorem Choosable.choose (choosable : Choosable C s) : Choosable C (s.emit .choose) :=
  ⟨⟨choosable.stands.inv.of_bones rfl, choosable.stands.roster⟩, choosable.seats, choosable.pointed, choosable.led,
    choosable.home⟩

/-- The descent ends at a thread of `pss_class`, unless the root's queue counts no entity. -/
theorem pssPickNextThread_cases (choosable : Choosable C s) (positive : C.positive) :
    (s.sfq 0).nrRunning = 0 ∧ pssPickNextThread s = some (none, s) ∨
      ∃ t a, pssPickNextThread s = some (some t, a) ∧ QueueFits a [] ∧ a.view = s.view ∧
        s.view.joined (.thread t) ∧ s.view.cls t = .pss := by
  have fits := choosable.queues positive
  by_cases busy : (s.sfq 0).nrRunning = 0
  · exact .inl ⟨busy, if_pos busy⟩
  · obtain ⟨t, a, walk, fits', view, joined, cls⟩ := pssPickFrom_total (s.ngroups + 1) fits (Nat.pos_of_ne_zero busy)
      fits.core.hier.positive (by simp)
    refine .inr ⟨t, a, ?_, fits', view, joined, cls⟩
    have thread : seToTd a (.thread t) = some t := seToTd_thread fits'.core.hier t
    have live : (a.td t).exited = false := by
      rw [view_exited, view]
      exact choosable.live joined
    unfold pssPickNextThread
    rw [if_neg busy]
    change (pssPickFrom s (s.ngroups + 1) 0).bind _ = _
    rw [walk]
    simp only [Option.bind_some, thread, live]
    rfl

/-- Once a thread has left the CPU without a change of class, the next can be chosen. -/
theorem Ready.choosable (ready : Ready C s) (positive : C.positive) (marks : C.marks)
    (home : s.view.cls s.view.idlethread = .idle) (path : Path C s b) (stands : Stands C b none)
    (seats : ∀ t, (b.seat t).Fits) (cls : b.view.cls = s.view.cls) : Choosable C b where
  stands := stands
  seats := seats
  pointed := (path.points positive marks).kept ready.pointed
  led := path.leads.kept ready.led
  home := by
    have same : b.view.idlethread = s.view.idlethread :=
      stands.roster.idle.1.trans ready.settled.stands.roster.idle.1.symm
    rw [cls, same]
    exact home

end choose

section switch
variable {C : Conds} {s : State} {t : Tid} {flags : Nat}

/-- The running thread is on neither run queue. -/
theorem Seat.Fits.away {x : Seat} (fits : x.Fits) (running : x.tdState = .running) : x.onSfq = false ∧ x.onRunq = false := by
  cases cls : x.cls with
  | idle => exact (fits.idle cls).2
  | realtime =>
    refine ⟨(fits.realtime cls).1, ?_⟩
    simpa [running] using fits.waiting cls
  | pss =>
    have off : x.onSfq = false := by simpa [running] using fits.queued cls
    exact ⟨off, by simpa [off] using fits.boosted cls⟩

theorem putPrevThread_total (inv : Inv C s (cpuChain s t) none) (positive : C.positive)
    (off : s.view.onSfq (.thread t) = false) (out : s.view.onRunq (.thread t) = false) :
    ∃ s', putPrevThread s t flags = some s' := by
  unfold putPrevThread
  dsimp only
  split
  · have clocked : Inv C (updateRqClock s) (cpuChain (updateRqClock s) t) none := inv.of_bones rfl
    exact classPutPrevThread_total clocked positive off out
  · exact classPutPrevThread_total inv positive off out

/-- A switch of the running thread puts it back and chooses the next. -/
theorem schedSwitch_running_chooses (ready : Ready C s) (positive : C.positive) (marks : C.marks)
    (home : s.view.cls s.view.idlethread = .idle) (flags : Nat) :
    ∃ b, putPrevThread (s.modTd s.curthread fun td => { td with needResched := false, owePreempt := false })
        s.curthread flags = some b ∧
      schedSwitch s s.curthread flags = chooseThread b ∧ Choosable C b ∧ b.view.cls = s.view.cls := by
  have stands := ready.settled.stands
  have unseen := clearResched_unseen s s.curthread
  have cleared := unseen.reaches stands.inv
  have seat : (s.modTd s.curthread fun td => { td with needResched := false, owePreempt := false }).seat = s.seat := by
    refine seat_modTd_keeps s ?_
    exact ⟨rfl, rfl, rfl⟩
  have groups : Groups (s.modTd s.curthread fun td => { td with needResched := false, owePreempt := false }) :=
    ⟨ready.seated.groups.parent, ready.seated.groups.se⟩
  obtain ⟨inside, live⟩ := stands.roster.current s.curthread rfl
  have running : s.view.tdState s.curthread = .running := (stands.roster.live s.curthread inside live).running.mpr rfl
  obtain ⟨off, out⟩ := (ready.seated.fits s.curthread).away running
  have state : ((s.modTd s.curthread fun td => { td with needResched := false, owePreempt := false }).td
      s.curthread).tdState = .running := (congrFun (congrArg View.tdState unseen.1) s.curthread).trans running
  unfold schedSwitch
  dsimp only
  rw [if_pos state]
  generalize (s.modTd s.curthread fun td => { td with needResched := false, owePreempt := false }) = c
    at unseen cleared seat groups ⊢
  have inv : Inv C c (cpuChain c s.curthread) none := by
    rw [show cpuChain c s.curthread = currentOn s (some s.curthread) from
      currentOn_congr (c := some s.curthread) cleared.frame fun u _ => by rw [unseen.1]]
    exact cleared.inv
  obtain ⟨a, leave⟩ : ∃ a, putPrevThread c s.curthread flags = some a :=
    putPrevThread_total inv positive (by rw [unseen.1]; exact off) (by rw [unseen.1]; exact out)
  have left := putPrevThread_reaches inv leave
  rw [unseen.1] at left
  have stands' : Stands C a none := ⟨left.inv, left.roster ▸ stands.roster.yield⟩
  have cls : a.view.cls = s.view.cls := by
    refine (congrArg Roster.cls left.roster).trans ?_
    split
    · rfl
    · unfold Roster.putBack
      dsimp only
      split <;> rfl
  have fits (u : Tid) : (c.seat u).Fits := by
    rw [seat]
    exact ready.seated.fits u
  obtain ⟨y, look, fits', _⟩ := putBack_seat groups (fits s.curthread) (by rw [seat]; exact running) leave
  have seats := update_fits (fun u _ => fits u) look fits'
  refine ⟨a, leave, ?_, ready.choosable positive marks home (cleared.path.trans left.path) stands' seats cls, cls⟩
  change (putPrevThread c s.curthread flags).bind chooseThread = _
  rw [leave]
  rfl

end switch
end SfqSched
