import SfqSched.SeatOps

namespace SfqSched
open State Function

section priority
variable {s s' : State} {t : Tid} {prio : Nat}

/-- A thread of `pss_class` may gain or lose its slot in the realtime queue with its priority. -/
theorem pssChangePriority_seat (fits : (s.seat t).Fits) (cls : (s.seat t).cls = .pss)
    (run : pssChangePriority s t prio = some s') :
    ∃ y, y.Fits ∧ y.tdState = (s.seat t).tdState ∧ (y.onCpu = (s.seat t).onCpu ∧ y.born = (s.seat t).born) ∧
      s'.seat = update s.seat t y := by
  unfold pssChangePriority at run
  split at run
  · rename_i raise
    have runq : (s.seat t).tdState = .runq := raise.1
    have onSfq : (s.seat t).onSfq := (fits.queued cls).mpr runq
    have joined : (s.seat t).joined := (fits.joined (by simp [cls])).mpr (.inl runq)
    have look : ((rawRunqDequeue s t).modTd t fun td => { td with tdPriority := prio }).seat =
        update s.seat t { s.seat t with onRunq := false, slots := [], priority := prio } := by
      rw [setTdPriority_seat, rawRunqDequeue_seat, fits.toSound.unboosted, update_self, update_idem]
    dsimp only at run
    generalize ((rawRunqDequeue s t).modTd t fun td => { td with tdPriority := prio }) = a at run look
    split at run
    · rename_i urgent
      obtain ⟨b, boost, run⟩ := Option.bind_eq_some_iff.mp run
      cases run
      obtain ⟨_, head, look'⟩ := rawRunqEnqueue_seat _ _ boost
      rw [look, update_self, update_idem] at look'
      refine ⟨Seat.boosted { s.seat t with onRunq := false, slots := [], priority := prio } head,
        ⟨⟨fits.leaf, .inl ⟨rfl, prio / 4, by cases head <;> rfl⟩, ?_, ?_⟩, ?_, ?_, ?_, ?_, ?_⟩, ?_, ?_,
        (checkPriorityPreempt_seat ..).trans look'⟩
      all_goals simp [Seat.boosted, Seat.added, cls, runq, onSfq, joined]
    · rename_i calm
      cases run
      refine ⟨{ s.seat t with onRunq := false, slots := [], priority := prio },
        ⟨⟨fits.leaf, .inr ⟨rfl, rfl⟩, ?_, ?_⟩, ?_, ?_, ?_, ?_, ?_⟩, ?_, ?_,
        (checkPriorityPreempt_seat ..).trans look⟩
      all_goals simp [cls, runq, onSfq, joined]
      exact Nat.le_of_not_lt calm
  · rename_i late
    cases run
    have stays : Seat.Fits { s.seat t with priority := prio } :=
      fits.setPriority fun runq => Nat.le_of_not_lt fun raise => late ⟨runq, raise⟩
    exact ⟨_, stays, rfl, ⟨rfl, rfl⟩, setTdPriority_seat ..⟩

/-- A realtime thread keeps a slot, if it has one, in another place. -/
theorem rtChangePriority_seat (fits : (s.seat t).Fits) (cls : (s.seat t).cls = .realtime)
    (run : rtChangePriority s t prio = some s') :
    ∃ y, y.Fits ∧ y.tdState = (s.seat t).tdState ∧ (y.onCpu = (s.seat t).onCpu ∧ y.born = (s.seat t).born) ∧
      s'.seat = update s.seat t y := by
  unfold rtChangePriority at run
  split at run
  · rename_i raise
    have runq : (s.seat t).tdState = .runq := raise.1
    have joined : (s.seat t).joined := (fits.joined (by simp [cls])).mpr (.inl runq)
    have onSfq := (fits.realtime cls).1
    split at run
    · rename_i queued
      have onRunq : (s.seat t).onRunq := queued
      cases run
      have look : (runqAdd ((runqRemove s t).modTd t fun td => { td with tdPriority := prio }) t false).seat =
          update s.seat t { s.seat t with priority := prio, slots := [prio / 4] } := by
        rw [runqAdd_seat, setTdPriority_seat, runqRemove_seat]
        simp only [update_self, update_idem]
        rfl
      refine ⟨{ s.seat t with priority := prio, slots := [prio / 4] },
        ⟨⟨fits.leaf, .inl ⟨onRunq, prio / 4, rfl⟩, ?_, ?_⟩, ?_, ?_, ?_, ?_, ?_⟩, ?_, ?_,
        (checkPriorityPreempt_seat ..).trans look⟩
      all_goals simp [cls, runq, onSfq, joined, onRunq]
    · cases run
  · rename_i late
    cases run
    have stays : Seat.Fits { s.seat t with priority := prio } :=
      fits.setPriority fun runq => Nat.le_of_not_lt fun raise => late ⟨runq, raise⟩
    exact ⟨_, stays, rfl, ⟨rfl, rfl⟩, setTdPriority_seat ..⟩

/-- All other seats stay, and this one fits its new priority. -/
theorem schedThreadPriority_seated (seated : Seated s) (born : (s.seat t).born) (run : schedThreadPriority s t prio = some s') :
    Seated s' := by
  have groups := (schedThreadPriority_charges (r := True) run).toWrites.groups seated.groups
  have store (y : Seat) (fits : y.Fits) (state : y.tdState = (s.seat t).tdState)
      (same : y.onCpu = (s.seat t).onCpu ∧ y.born = (s.seat t).born) (look : s'.seat = update s.seat t y) : Seated s' :=
    seated.update look fits (fun current => state.trans (seated.cpu t (same.1 ▸ current))) (same.2.trans born) groups
  unfold schedThreadPriority at run
  split at run
  · cases run
    exact seated
  · split at run
    · rename_i cls
      obtain ⟨y, fits, state, same, look⟩ := rtChangePriority_seat (seated.fits t) cls run
      exact store y fits state same look
    · rename_i cls
      obtain ⟨y, fits, state, same, look⟩ := pssChangePriority_seat (seated.fits t) cls run
      exact store y fits state same look
    · cases run
      exact seated

theorem schedPrio_seated (seated : Seated s) (born : (s.seat t).born) (run : schedPrio s t prio = some s') : Seated s' := by
  have look : (s.modTd t fun td => { td with tdBasePri := prio }).seat = s.seat := by
    refine seat_modTd_keeps s ?_
    exact ⟨rfl, rfl, rfl⟩
  have first : Seated (s.modTd t fun td => { td with tdBasePri := prio }) :=
    seated.same look ⟨seated.groups.parent, seated.groups.se⟩
  unfold schedPrio at run
  dsimp only at run
  split at run
  · cases run
    exact first
  · exact schedThreadPriority_seated first (by rw [look]; exact born) run

theorem schedLendPrio_seated (seated : Seated s) (born : (s.seat t).born) (run : schedLendPrio s t prio = some s') : Seated s' := by
  have look : (s.modTd t fun td => { td with borrowing := true }).seat = s.seat := by
    refine seat_modTd_keeps s ?_
    exact ⟨rfl, rfl, rfl⟩
  have first : Seated (s.modTd t fun td => { td with borrowing := true }) :=
    seated.same look ⟨seated.groups.parent, seated.groups.se⟩
  exact schedThreadPriority_seated first (by rw [look]; exact born) run

theorem schedUnlendPrio_seated (seated : Seated s) (born : (s.seat t).born) (run : schedUnlendPrio s t prio = some s') : Seated s' := by
  have look : (s.modTd t fun td => { td with borrowing := false }).seat = s.seat := by
    refine seat_modTd_keeps s ?_
    exact ⟨rfl, rfl, rfl⟩
  have first : Seated (s.modTd t fun td => { td with borrowing := false }) :=
    seated.same look ⟨seated.groups.parent, seated.groups.se⟩
  unfold schedUnlendPrio at run
  dsimp only at run
  generalize (if puser ≤ (s.td t).tdBasePri ∧ (s.td t).tdBasePri ≤ 223 then (s.td t).tdUserPri
    else (s.td t).tdBasePri) = basePri at run
  split at run
  · exact schedThreadPriority_seated first (by rw [look]; exact born) run
  · exact schedLendPrio_seated seated born run

/-- A user priority is not in a seat. -/
theorem schedUserPrio_seat : (schedUserPrio s t prio).seat = s.seat := by
  have first : (s.modTd t fun td => { td with tdBaseUserPri := prio }).seat = s.seat := by
    refine seat_modTd_keeps s ?_
    exact ⟨rfl, rfl, rfl⟩
  unfold schedUserPrio
  dsimp only
  split
  · exact first
  · refine (seat_modTd_keeps _ ?_).trans first
    exact ⟨rfl, rfl, rfl⟩

theorem schedLendUserPrio_seated (seated : Seated s) (born : (s.seat t).born) (run : schedLendUserPrio s t prio = some s') : Seated s' := by
  have look : (s.modTd t fun td =>
      { td with tdLendUserPri := prio, tdUserPri := min prio td.tdBaseUserPri }).seat = s.seat := by
    refine seat_modTd_keeps s ?_
    exact ⟨rfl, rfl, rfl⟩
  have first : Seated (s.modTd t fun td =>
      { td with tdLendUserPri := prio, tdUserPri := min prio td.tdBaseUserPri }) :=
    seated.same look ⟨seated.groups.parent, seated.groups.se⟩
  unfold schedLendUserPrio at run
  dsimp only at run
  split at run
  · exact schedPrio_seated first (by rw [look]; exact born) run
  · split at run
    · cases run
      exact first.same (reschedThread_seat ..) ⟨first.groups.parent, first.groups.se⟩
    · cases run
      exact first

/-- `sched_userret` of the running thread. -/
theorem schedUserret_seated (seated : Seated s) (run : schedUserret s s.curthread = some s') : Seated s' := by
  obtain ⟨_, same⟩ := Option.ite_none_left_eq_some.mp run
  obtain rfl := Option.some.inj same
  have running : (s.seat s.curthread).tdState = .running := seated.cpu _ (by simp [State.seat])
  have look : ∃ pri, (s.modTd s.curthread fun td => if td.tdPriority ≠ td.tdUserPri then
      { td with tdPriority := td.tdUserPri, tdBasePri := td.tdUserPri } else td).seat =
      update s.seat s.curthread { s.seat s.curthread with priority := pri } := by
    rw [seat_modTd]
    split
    · exact ⟨_, rfl⟩
    · exact ⟨_, rfl⟩
  obtain ⟨pri, look⟩ := look
  refine seated.update look ((seated.fits s.curthread).setPriority fun runq => ?_) (fun _ => running)
    (seated.born (by simp [running])) ⟨seated.groups.parent, seated.groups.se⟩
  exact absurd (running.symm.trans runq) (by simp)

end priority

section step
variable {s s' : State} {t : Tid}

/-- A thread that wakes up takes a seat. -/
theorem schedAdd_seated (seated : Seated s) (born : (s.seat t).born) (apart : (s.td t).tdState ≠ .runq ∧ (s.td t).tdState ≠ .running)
    (run : schedAdd (setTdState s t .canRun) t = some s') : Seated s' := by
  have out := (seated.fits t).out apart
  obtain ⟨a, enqueue, run⟩ := Option.bind_eq_some_iff.mp run
  have look : ((setTdState s t .canRun).modEnt (.thread t) fun se => { se with initial := false }).seat =
      update s.seat t { s.seat t with tdState := .canRun } := by
    refine (seat_modEnt_keeps _ ?_).trans (setTdState_seat ..)
    exact ⟨rfl, rfl, rfl, rfl⟩
  have ready : Charges True s ((setTdState s t .canRun).modEnt (.thread t) fun se => { se with initial := false }) :=
    (setTdState_charges _ _ _ (by simp)).trans (.modEnt _ _ _ ⟨rfl, rfl, rfl⟩)
  have groups := ready.toWrites.groups seated.groups
  generalize ((setTdState s t .canRun).modEnt (.thread t) fun se => { se with initial := false }) = b at *
  have here : b.seat t = { s.seat t with tdState := .canRun } := by rw [look, update_self]
  have out' : (b.seat t).Out := by
    rw [here]
    exact ⟨out.leaf, out.joined, out.onSfq, out.onRunq, out.slots⟩
  obtain ⟨y, fits, alike, _, _, look'⟩ := attach_seat groups out' enqueue
  rw [look, update_idem] at look'
  have preempt : s'.seat = a.seat := by
    unfold checkPreemptCurr at run
    dsimp only at run
    split at run
    · exact (pssCheckPreemptCurr_seat run).trans (checkPriorityPreempt_seat ..)
    · cases run
      exact checkPriorityPreempt_seat ..
  have groups' := (checkPreemptCurr_charges run).toWrites.groups ((enqueueThread_charges enqueue).toWrites.groups groups)
  have born' : y.born := by
    rw [alike.2.2.2, here]
    exact born
  refine seated.update (preempt.trans look') fits (fun current => ?_) born' groups'
  have onCpu : y.onCpu = (s.seat t).onCpu := by rw [alike.2.2.1, here]
  exact absurd (seated.cpu t (onCpu ▸ current)) apart.2

/-- A tick unseats nobody. -/
theorem schedTick_seat (s : State) : (schedTick s).seat = s.seat := by
  have rt (s : State) (t : Tid) : (rtTick s t).seat = s.seat := by
    unfold rtTick
    dsimp only
    split
    · rfl
    · rfl
    · split
      · exact reschedThread_seat ..
      · rfl
  unfold schedTick
  dsimp only
  split
  · exact (rt ..).trans (updateRqClock_seat s)
  · exact (pssTickThread_seat ..).trans (updateRqClock_seat s)
  · exact updateRqClock_seat s

theorem schedGroupCreate_seat (s : State) (parent : Gid) (shares : Nat) :
    (schedGroupCreate s parent shares).seat = s.seat := by
  unfold schedGroupCreate pssAllocSchedGroup
  exact (seat_modGrp ..).trans (seat_modEnt_group ..)

/-- The seat of the child is empty, and no other changes. -/
theorem fork_seat {newProc : Bool} {stale : SchedEntity} (older : t ≠ s.nthreads) :
    ∃ pri, (fork s t newProc stale).seat = update s.seat s.nthreads
      { s.seat s.nthreads with
        tdState := .inactive, cls := (s.seat t).cls, priority := pri, myQ := none
        joined := false, onSfq := false, onRunq := false, born := true } := by
  have tail : (fork s t newProc stale).seat = (schedForkInit (forkAlloc s t newProc) t s.nthreads stale).seat := by
    unfold fork schedForkThread
    dsimp only
    split
    · exact pssForkThread_seat ..
    · exact seat_emit ..
  refine ⟨(s.td t).tdBasePri, ?_⟩
  rw [tail]
  funext u
  by_cases here : u = s.nthreads
  · subst here
    rw [update_self]
    cases newProc <;>
      simp [State.seat, schedForkInit, forkAlloc, setThreadRq, State.modEnt, State.modTd, State.modGrp,
        State.modProc, forkThread, older]
  · have later : Nat.blt u (s.nthreads + 1) = Nat.blt u s.nthreads := by
      rw [Bool.eq_iff_iff, Nat.blt_eq, Nat.blt_eq]
      exact ⟨fun le => Nat.lt_of_le_of_ne (Nat.le_of_lt_succ le) here, Nat.lt_succ_of_lt⟩
    rw [update_of_ne here]
    cases newProc <;>
      simp [State.seat, schedForkInit, forkAlloc, setThreadRq, State.modEnt, State.modTd, State.modGrp,
        State.modProc, here, later]

theorem fork_groups {newProc : Bool} {stale : SchedEntity} (groups : Groups s) : Groups (fork s t newProc stale) := by
  have alloc : Groups (forkAlloc s t newProc) := by cases newProc <;> exact ⟨groups.parent, groups.se⟩
  exact (schedForkThread_moves ..).toWrites.groups alloc

/-- A child has a seat that is empty. -/
theorem fork_seated {newProc : Bool} {stale : SchedEntity} (seated : Seated s) (older : t ≠ s.nthreads) :
    Seated (fork s t newProc stale) := by
  have never : (s.seat s.nthreads).born = false := by
    by_contra born
    have below : Nat.blt s.nthreads s.nthreads = true := by simp only [State.seat, Bool.not_eq_false] at born; exact born
    exact absurd (Nat.blt_eq.mp below) (Nat.lt_irrefl _)
  have unborn : (s.seat s.nthreads).tdState = .inactive := (seated.unborn s.nthreads never).1
  have out := (seated.fits s.nthreads).out (by simp [unborn])
  obtain ⟨pri, look⟩ := fork_seat (s := s) (t := t) older
  refine seated.update look (Seat.Out.fits ⟨rfl, rfl, rfl, rfl, out.slots⟩ (by simp)) (fun current => ?_) rfl
    (fork_groups seated.groups)
  exact absurd (unborn.symm.trans (seated.cpu _ current)) (by simp)

/-- Every operation leaves every thread with a seat that fits. -/
theorem step_seated (seated : Seated s) {op : Op} (run : step s op = some s') : Seated s' := by
  unfold step at run
  split at run
  · rename_i enabled
    have runs : (s.seat s.curthread).tdState = .running := seated.cpu _ (by simp [State.seat])
    have current := seated.born (t := s.curthread) (by simp [runs])
    have live (t : Tid) (live : s.live t) : (s.seat t).born := by
      simp only [State.live, Bool.and_eq_true, decide_eq_true_eq] at live
      simpa [State.seat] using live.1
    cases op
    case add t =>
      simp only [Op.enabled, Bool.and_eq_true, decide_eq_true_eq] at enabled
      exact schedAdd_seated seated (live t enabled.1.1.1) ⟨enabled.1.2, enabled.2⟩ run
    case switch flags =>
      exact schedSwitch_seated seated.groups (fun u _ => seated.fits u) (seated.fits _).toSound
        (fun u _ => seated.unborn u) current (.inl ⟨seated.fits _, runs⟩) run
    case sleep flags =>
      have look := setTdState_seat s s.curthread .inhibited
      have fits := seated.fits s.curthread
      have here : (setTdState s s.curthread .inhibited).seat s.curthread =
          { s.seat s.curthread with tdState := .inhibited } := by rw [look, update_self]
      have groups : Groups (setTdState s s.curthread .inhibited) := ⟨seated.groups.parent, seated.groups.se⟩
      refine schedSwitch_seated groups (fun u other => ?_) ?_ (fun u other => ?_) ?_ ?_ run
      · rw [look, update_of_ne other]
        exact seated.fits u
      · rw [here]
        exact ⟨fits.leaf, fits.listed, fits.realtime, fits.idle⟩
      · rw [look, update_of_ne other]
        exact seated.unborn u
      · rw [here]
        exact current
      · rw [here]
        exact .inr (by simp)
    case throw => exact schedThrow_seated seated current run
    case schedClass t priClass => exact schedClass_seated seated (live t enabled) run
    case nice p n => exact (schedNice_seated seated run).seated
    case groupMove t g =>
      unfold Op.exec sysctlMoveThread at run
      dsimp only at run
      split at run
      · cases run
        exact seated
      · refine schedGroupMove_seated (seated.same ?_ ?_) run
        · rfl
        · have lists (s : State) (old : Gid) : Charges True s
              ((s.modGrp old fun sg => { sg with threads := sg.threads.filter (· ≠ t) }).modGrp g fun sg =>
                { sg with threads := sg.threads ++ [t] }) :=
            Charges.trans (.modGrp _ _ _ rfl rfl) (.modGrp _ _ _ rfl rfl)
          exact (lists s _).toWrites.groups seated.groups
    case fork t newProc stale =>
      cases run
      simp only [Op.enabled, State.live, Bool.and_eq_true, decide_eq_true_eq] at enabled
      exact fork_seated seated (Nat.ne_of_lt enabled.1.1)
    case exitThread t =>
      cases run
      refine seated.same rfl ?_
      have list : Charges True s (schedExitThread s t) := .modGrp _ _ _ rfl rfl
      exact list.toWrites.groups seated.groups
    case tick =>
      cases run
      refine seated.same ?_ ((schedTick_charges s).toWrites.groups seated.groups)
      exact schedTick_seat s
    case prio t p =>
      simp only [Op.enabled, Bool.and_eq_true] at enabled
      exact schedPrio_seated seated (live t enabled.1) run
    case lendPrio t p =>
      simp only [Op.enabled, Bool.and_eq_true] at enabled
      exact schedLendPrio_seated seated (live t enabled.1) run
    case unlendPrio t p =>
      simp only [Op.enabled, Bool.and_eq_true] at enabled
      exact schedUnlendPrio_seated seated (live t enabled.1) run
    case userPrio t p =>
      cases run
      refine seated.same schedUserPrio_seat ?_
      unfold schedUserPrio
      dsimp only
      split <;> exact ⟨seated.groups.parent, seated.groups.se⟩
    case lendUserPrio t p =>
      simp only [Op.enabled, Bool.and_eq_true] at enabled
      exact schedLendUserPrio_seated seated (live t enabled.1) run
    case userret => exact schedUserret_seated seated run
    case setShares g shares =>
      cases run
      exact seated.same (pssSchedGroupSetShares_seat ..)
        ((pssSchedGroupSetShares_charges ..).toWrites.groups seated.groups)
    case groupCreate g shares =>
      cases run
      exact seated.same (schedGroupCreate_seat ..) (groupCreate_groups seated.groups)
    case sysctl write =>
      obtain ⟨tun, _, rfl⟩ := Option.map_eq_some_iff.mp run
      exact seated.same rfl ⟨seated.groups.parent, seated.groups.se⟩
  · cases run

end step
end SfqSched
