import SfqSched.SeatRun

namespace SfqSched
open State Function

/-- The two run queues agree about every thread, and `curthread` is running. -/
structure Seated (s : State) : Prop where
  fits : ∀ t, (s.seat t).Fits
  cpu : ∀ t, (s.seat t).onCpu → (s.seat t).tdState = .running
  unborn : ∀ t, (s.seat t).born = false → (s.seat t).tdState = .inactive ∧ (s.seat t).cls = .pss
  groups : Groups s

namespace Seated
variable {s s' : State} {t : Tid} {y : Seat}

/-- All seats fit if the one that changed does. -/
theorem update (seated : Seated s) (look : s'.seat = Function.update s.seat t y) (fits : y.Fits)
    (cpu : y.onCpu → y.tdState = .running) (born : y.born) (groups : Groups s') : Seated s' := by
  have unborn : y.born = false → y.tdState = .inactive ∧ y.cls = .pss := by simp [born]
  refine ⟨fun u => ?_, fun u => ?_, fun u => ?_, groups⟩
  all_goals
    rw [look]
    by_cases here : u = t
    · subst here
      rw [update_self]
      assumption
    · rw [update_of_ne here]
      first | exact seated.fits u | exact seated.cpu u | exact seated.unborn u

/-- All seats fit if none has changed. -/
theorem same (seated : Seated s) (look : s'.seat = s.seat) (groups : Groups s') : Seated s' :=
  ⟨fun u => look ▸ seated.fits u, fun u => look ▸ seated.cpu u, fun u => look ▸ seated.unborn u, groups⟩

/-- A thread that is not inactive has been made. -/
theorem born (seated : Seated s) (active : (s.seat t).tdState ≠ .inactive) : (s.seat t).born := by
  by_contra unborn
  exact active (seated.unborn t (by simpa using unborn)).1

end Seated

section threads
variable {s s' : State} {t : Tid} {flags : Nat}

/-- Queueing a thread is a change of its seat only. -/
theorem enqueueThread_seat (groups : Groups s) (leaf : (s.seat t).myQ = none)
    (run : enqueueThread s t flags = some s') : ∃ y, (s.seat t).Enqueued y ∧ s'.seat = update s.seat t y := by
  have step : classEnqueueThread ((updateRqClock s).seat t).cls (updateRqClock s) t flags = some s' := run
  rw [← updateRqClock_seat s] at leaf ⊢
  exact classEnqueueThread_seat ((updateRqClock_charges (r := True) s).toWrites.groups groups) leaf step

/-- Taking a thread off is a change of its seat only. -/
theorem dequeueThread_seat (groups : Groups s) (leaf : (s.seat t).myQ = none)
    (run : dequeueThread s t flags = some s') : ∃ y, (s.seat t).Dequeued y ∧ s'.seat = update s.seat t y := by
  have step : classDequeueThread ((updateRqClock s).seat t).cls (updateRqClock s) t flags = some s' := run
  rw [← updateRqClock_seat s] at leaf ⊢
  exact classDequeueThread_seat ((updateRqClock_charges (r := True) s).toWrites.groups groups) leaf step

theorem putPrevThread_seat (groups : Groups s) (leaf : (s.seat t).myQ = none)
    (run : putPrevThread s t flags = some s') : ∃ y, (s.seat t).Released y ∧ s'.seat = update s.seat t y := by
  have clock : (if (s.ent (.thread t)).joined then updateRqClock s else s).seat = s.seat := by
    split
    · exact updateRqClock_seat s
    · rfl
  have groups' : Groups (if (s.ent (.thread t)).joined then updateRqClock s else s) := by
    split
    · exact (updateRqClock_charges (r := True) s).toWrites.groups groups
    · exact groups
  unfold putPrevThread at run
  dsimp only at run
  generalize (if (s.ent (.thread t)).joined then updateRqClock s else s) = a at clock groups' run
  have step : classPutPrevThread (a.seat t).cls a t flags = some s' := run
  rw [← clock] at leaf ⊢
  exact classPutPrevThread_seat groups' leaf step

/-- The running thread leaves its queue and the CPU. -/
theorem detachRunning_seat {a : State} (groups : Groups s) (sound : (s.seat t).Sound)
    (left : dequeueThread s t flags = some a) {flags' : Nat} (put : putPrevThread a t flags' = some s') :
    ∃ y, y.Out ∧ (s.seat t).Alike y ∧ (y.tdState = (s.seat t).tdState ∨ y.tdState = .canRun) ∧
      s'.seat = update s.seat t y := by
  obtain ⟨x, step, look⟩ := dequeueThread_seat groups sound.leaf left
  obtain ⟨out, alike, state⟩ := step.out sound
  have here : a.seat t = x := by rw [look, update_self]
  obtain ⟨y, step', look'⟩ :=
    putPrevThread_seat ((dequeueThread_charges left).toWrites.groups groups) (here ▸ out.leaf) put
  rw [here] at step'
  obtain ⟨out', alike', state'⟩ := step'.out out
  refine ⟨y, out', alike.trans alike', ?_, ?_⟩
  · rcases state' with same | rest
    · exact .inl (same.trans state)
    · exact .inr rest
  · rw [look', look, update_idem]

/-- A thread on no queue is enqueued again and, if it was running, runs on. -/
theorem attach_seat (groups : Groups s) (out : (s.seat t).Out) (run : enqueueThread s t flags = some s') :
    ∃ y, y.Fits ∧ (s.seat t).Alike y ∧ ((s.seat t).cls ≠ .idle → y.tdState = .runq) ∧
      ((s.seat t).cls = .pss → y.slots ≠ [] → (s.seat t).priority < normalPri) ∧ s'.seat = update s.seat t y := by
  obtain ⟨y, step, look⟩ := enqueueThread_seat groups out.leaf run
  obtain ⟨fits, alike, queued, _⟩ := step.fits out
  exact ⟨y, fits, alike, queued, step.urgent out, look⟩

/-- Back on the CPU in the middle of an operation, with the seat as it would be anyway. -/
theorem resume_seat (groups : Groups s) (fits : (s.seat t).Fits)
    (run : (activateThread s t).map (fun s => setTdState s t .running) = some s') :
    ∃ y, y.Fits ∧ (s.seat t).Alike y ∧ y.tdState = .running ∧ s'.seat = update s.seat t y := by
  obtain ⟨a, start, rfl⟩ := Option.map_eq_some_iff.mp run
  obtain ⟨y, step, look⟩ := classActivateThread_seat groups fits.leaf start
  obtain ⟨fits', alike, running⟩ := step.fits fits
  refine ⟨y, fits', alike, running, ?_⟩
  rw [setTdState_seat, look, update_self, update_idem, ← running]

/-- A running thread is put back on its queue. -/
theorem putBack_seat (groups : Groups s) (fits : (s.seat t).Fits) (running : (s.seat t).tdState = .running)
    (put : putPrevThread s t flags = some s') : ∃ y, s'.seat = update s.seat t y ∧ y.Fits ∧ (s.seat t).Alike y := by
  obtain ⟨y, step, look⟩ := putPrevThread_seat groups fits.leaf put
  exact ⟨y, look, step.fits fits running⟩

/-- A thread that goes to sleep leaves its queue and the CPU. -/
theorem leave_seat {a : State} (groups : Groups s) (sound : (s.seat t).Sound)
    (asleep : (s.seat t).tdState ≠ .runq ∧ (s.seat t).tdState ≠ .running) (left : dequeueThread s t flags = some a)
    {flags' : Nat} (put : putPrevThread a t flags' = some s') :
    ∃ y, s'.seat = update s.seat t y ∧ y.Fits ∧ (s.seat t).Alike y := by
  obtain ⟨y, out, alike, rests, look⟩ := detachRunning_seat groups sound left put
  refine ⟨y, look, out.fits ?_, alike⟩
  rcases rests with same | rest
  · rw [same]
    exact asleep
  · simp [rest]

theorem update_fits {y : Seat} (others : ∀ u, u ≠ t → (s.seat u).Fits) (look : s'.seat = Function.update s.seat t y)
    (fits : y.Fits) (u : Tid) : (s'.seat u).Fits := by
  rw [look]
  by_cases here : u = t
  · subst here
    rwa [update_self]
  · rw [update_of_ne here]
    exact others u here

/-- The thread that is chosen has a seat that fits the CPU. -/
theorem chooseThread_seated (groups : Groups s) (fits : ∀ t, (s.seat t).Fits)
    (unborn : ∀ t, (s.seat t).born = false → (s.seat t).tdState = .inactive ∧ (s.seat t).cls = .pss)
    (run : chooseThread s = some s') : Seated s' := by
  have groups' : Groups s' := (chooseThread_writes (r := True) groups run).1.groups groups
  have dispatch (s a : State) (t : Tid) (groups : Groups s) (fits : ∀ t, (s.seat t).Fits)
      (unborn : ∀ t, (s.seat t).born = false → (s.seat t).tdState = .inactive ∧ (s.seat t).cls = .pss) (start : classActivateThread (s.td t).cls s t = some a)
      (groups' : Groups { setTdState a t .running with curthread := t }) :
      Seated { setTdState a t .running with curthread := t } := by
    obtain ⟨y, step, look⟩ := classActivateThread_seat groups (fits t).leaf start
    obtain ⟨fits', alike, running⟩ := step.fits (fits t)
    have born : (s.seat t).born := by
      by_contra never
      obtain ⟨inactive, cls⟩ := unborn t (by simpa using never)
      have joined := (fits t).joined (by simp [cls])
      unfold Seat.Activated at step
      rw [cls] at step
      simp [inactive, step.1] at joined
    have all (u : Tid) : (a.seat u).Fits := by
      rw [look]
      by_cases here : u = t
      · subst here
        rwa [update_self]
      · rw [update_of_ne here]
        exact fits u
    have state (u : Tid) : ((setTdState a t .running).seat u) = a.seat u := by
      rw [setTdState_seat]
      by_cases here : u = t
      · subst here
        rw [update_self, look, update_self, ← running]
      · rw [update_of_ne here]
    refine ⟨fun u => ?_, fun u onCpu => ?_, fun u never => ?_, groups'⟩
    · have fit := (state u).symm ▸ all u
      exact ⟨⟨fit.leaf, fit.listed, fit.realtime, fit.idle⟩, fit.joined, fit.queued, fit.boosted, fit.urgent, fit.waiting⟩
    · have same : t = u := by simpa [State.seat] using onCpu
      subst same
      have here : ((setTdState a t .running).seat t).tdState = .running := by
        rw [state, look, update_self, running]
      exact here
    · have never' : (a.seat u).born = false := by rw [← state u]; exact never
      have result : (a.seat u).tdState = .inactive ∧ (a.seat u).cls = .pss := by
        rw [look] at never' ⊢
        by_cases here : u = t
        · subst here
          rw [update_self, alike.2.2.2, born] at never'
          cases never'
        · rw [update_of_ne here] at never' ⊢
          exact unborn u never'
      rw [← state u] at result
      exact result
  obtain ⟨⟨t, a⟩, chosen, rfl⟩ := Option.map_eq_some_iff.mp run
  have groups₁ : Groups (s.emit .choose) := ⟨groups.parent, groups.se⟩
  unfold schedChoose at chosen
  dsimp only at chosen
  split at chosen
  · obtain ⟨b, start, same⟩ := Option.map_eq_some_iff.mp chosen
    cases same
    exact dispatch (s.emit .choose) a t groups₁ fits unborn start groups'
  · obtain ⟨⟨picked, b⟩, walk, chosen⟩ := Option.bind_eq_some_iff.mp chosen
    obtain ⟨c, start, same⟩ := Option.map_eq_some_iff.mp chosen
    cases same
    have look : b.seat = s.seat := (pssPickNextThread_seat walk).trans (seat_emit ..)
    have groups₂ := (pssPickNextThread_charges (r := True) walk).toWrites.groups groups₁
    have fits₂ (u : Tid) : (b.seat u).Fits := by
      rw [look]
      exact fits u
    have unborn₂ (u : Tid) : (b.seat u).born = false → (b.seat u).tdState = .inactive ∧ (b.seat u).cls = .pss := by
      rw [look]
      exact unborn u
    exact dispatch b a _ groups₂ fits₂ unborn₂ start groups'

end threads

section ops
variable {s s' : State} {t : Tid} {flags : Nat}

/-- The outgoing thread is running, or is going to sleep. -/
theorem schedSwitch_seated (groups : Groups s) (others : ∀ u, u ≠ t → (s.seat u).Fits)
    (sound : (s.seat t).Sound)
    (unborn : ∀ u, u ≠ t → (s.seat u).born = false → (s.seat u).tdState = .inactive ∧ (s.seat u).cls = .pss)
    (born : (s.seat t).born)
    (state : (s.seat t).Fits ∧ (s.seat t).tdState = .running ∨
      (s.seat t).tdState ≠ .runq ∧ (s.seat t).tdState ≠ .running)
    (run : schedSwitch s t flags = some s') : Seated s' := by
  have clear : (s.modTd t fun td => { td with needResched := false, owePreempt := false }).seat = s.seat := by
    refine seat_modTd_keeps s ?_
    exact ⟨rfl, rfl, rfl⟩
  have groups₁ : Groups (s.modTd t fun td => { td with needResched := false, owePreempt := false }) :=
    ⟨groups.parent, groups.se⟩
  have finish (b : State) (y : Seat) (groups : Groups b) (look : b.seat = update s.seat t y) (fits : y.Fits)
      (alike : (s.seat t).Alike y) (run : chooseThread b = some s') : Seated s' := by
    refine chooseThread_seated groups (update_fits others look fits) (fun u => ?_) run
    rw [look]
    by_cases here : u = t
    · subst here
      rw [update_self, alike.2.2.2, born]
      simp
    · rw [update_of_ne here]
      exact unborn u here
  have stateIs : ((s.modTd t fun td => { td with needResched := false, owePreempt := false }).td t).tdState =
      (s.seat t).tdState := congrArg Seat.tdState (congrFun clear t)
  unfold schedSwitch at run
  dsimp only at run
  generalize (s.modTd t fun td => { td with needResched := false, owePreempt := false }) = a at *
  rw [stateIs] at run
  split at run
  · rename_i running
    obtain ⟨b, put, run⟩ := Option.bind_eq_some_iff.mp run
    rcases state with ⟨fits, _⟩ | ⟨_, never⟩
    · obtain ⟨y, look, fits', alike⟩ := putBack_seat groups₁ (by rw [clear]; exact fits) (by rw [clear]; exact running) put
      rw [clear] at look alike
      exact finish b y ((putPrevThread_charges put).toWrites.groups groups₁) look fits' alike run
    · exact absurd running never
  · rename_i other
    obtain ⟨b, left, run⟩ := Option.bind_eq_some_iff.mp run
    obtain ⟨c, put, run⟩ := Option.bind_eq_some_iff.mp run
    have asleep := state.resolve_left fun both => other both.2
    obtain ⟨y, look, fits, alike⟩ := leave_seat groups₁ (by rw [clear]; exact sound) (by rw [clear]; exact asleep) left put
    rw [clear] at look alike
    have groups₂ := (dequeueThread_charges left).toWrites.groups groups₁
    exact finish c y ((putPrevThread_charges put).toWrites.groups groups₂) look fits alike run

/-- A thread that exits leaves its queue and the CPU for good. -/
theorem throw_seat {a b : State} (seated : Seated s) (left : dequeueThread s t 0 = some a)
    (put : putPrevThread a t 0 = some b) (p : Pid) (f : Proc → Proc) :
    ∃ y, ((b.modTd t fun td => { td with tdState := .inactive, exited := true }).modProc p f).seat = update s.seat t y ∧
      y.Fits ∧ y.born = (s.seat t).born := by
  obtain ⟨y, out, alike, _, look⟩ := detachRunning_seat seated.groups (seated.fits t).toSound left put
  have ended := seat_setState b t .inactive (fun td => { td with tdState := .inactive, exited := true })
    fun _ => ⟨rfl, rfl, rfl⟩
  refine ⟨{ y with tdState := .inactive }, ?_, ?_, alike.2.2.2⟩
  · rw [seat_modProc, ended, look, update_self, update_idem]
  · exact Seat.Out.fits ⟨out.leaf, out.joined, out.onSfq, out.onRunq, out.slots⟩ (by simp)

/-- A thread that ends has left its seat. -/
theorem schedThrow_seated (seated : Seated s) (born : (s.seat t).born) (run : schedThrow s t = some s') : Seated s' := by
  obtain ⟨a, left, run⟩ := Option.bind_eq_some_iff.mp run
  obtain ⟨b, put, run⟩ := Option.bind_eq_some_iff.mp run
  have groups := (putPrevThread_charges put).toWrites.groups ((dequeueThread_charges left).toWrites.groups seated.groups)
  obtain ⟨y, look, fits, stays⟩ := throw_seat seated left put ((b.modTd t fun td =>
    { td with tdState := .inactive, exited := true }).td t).proc fun p => { p with threads := p.threads.filter (· ≠ t) }
  refine chooseThread_seated (s := (b.modTd t fun td => { td with tdState := .inactive, exited := true }).modProc _ _)
    ⟨groups.parent, groups.se⟩ (update_fits (fun u _ => seated.fits u) look fits) (fun u => ?_) run
  rw [look]
  by_cases here : u = t
  · subst here
    rw [update_self, stays, born]
    simp
  · rw [update_of_ne here]
    exact seated.unborn u

/-- What nice, group and class changes have in common: a queued or running thread is taken off its
queue, changed by `m`, which keeps its seat, and put back where it was. -/
theorem reattach_seated {m : State → State} (seated : Seated s) (keeps : ∀ a, (m a).seat = a.seat)
    (groups : ∀ a, Groups a → Groups (m a)) (born : (s.seat t).born) {a b : State}
    (left : dequeueThread s t 0 = some a) (put : (if (s.td t).tdState = .running then putPrevThread a t 0 else some a) = some b)
    {c : State} (back : enqueueThread (m b) t 0 = some c)
    (resume : (if (s.td t).tdState = .running then (activateThread c t).map fun s => setTdState s t .running
      else some c) = some s') : Seated s' ∧ (∀ u, u ≠ t → s'.seat u = s.seat u) ∧
        ((s.seat t).cls = .pss → (s.td t).tdState = .runq ∨ (s.td t).tdState = .running →
          (s.seat t).Stays (s'.seat t)) := by
  have sound := (seated.fits t).toSound
  have groups₁ := (dequeueThread_charges left).toWrites.groups seated.groups
  obtain ⟨y, out, alike, groups₂, look⟩ : ∃ y, y.Out ∧ (s.seat t).Alike y ∧ Groups b ∧ b.seat = update s.seat t y := by
    split at put
    · obtain ⟨y, out, alike, _, look⟩ := detachRunning_seat seated.groups sound left put
      exact ⟨y, out, alike, (putPrevThread_charges put).toWrites.groups groups₁, look⟩
    · cases put
      obtain ⟨y, step, look⟩ := dequeueThread_seat seated.groups sound.leaf left
      obtain ⟨out, alike, _⟩ := step.out sound
      exact ⟨y, out, alike, groups₁, look⟩
  have here : (m b).seat t = y := by rw [keeps, look, update_self]
  obtain ⟨z, fits, alike', _, urgent, look'⟩ := attach_seat (groups b groups₂) (here ▸ out) back
  rw [here] at alike' urgent
  rw [keeps, look, update_idem] at look'
  have groups₃ := (enqueueThread_charges back).toWrites.groups (groups b groups₂)
  have both := alike.trans alike'
  have onCpu : z.onCpu = (s.seat t).onCpu := both.2.2.1
  have born' : z.born := both.2.2.2.trans born
  split at resume
  · have at_t : c.seat t = z := by rw [look', update_self]
    obtain ⟨w, fits', alike'', running, look''⟩ := resume_seat groups₃ (at_t ▸ fits) resume
    rw [at_t] at alike''
    rw [look', update_idem] at look''
    obtain ⟨d, start, rfl⟩ := Option.map_eq_some_iff.mp resume
    have groups₄ : Groups (setTdState d t .running) :=
      ((classActivateThread_starts groups₃ start).trans (.setTdState ..)).toWrites.groups groups₃
    have all := both.trans alike''
    refine ⟨seated.update look'' fits' (fun _ => running) (alike''.2.2.2.trans born') groups₄, fun u other => ?_,
      fun pss _ => ?_⟩
    · rw [look'', update_of_ne other]
    · rw [look'', update_self]
      refine ⟨all.1, all.2.1, fun listed => ?_⟩
      have queued := fits'.slots_queued (all.1.trans pss) listed
      exact TdState.noConfusion (running.symm.trans queued)
  · rename_i still
    cases resume
    refine ⟨seated.update look' fits (fun current => ?_) born' groups₃, fun u other => ?_, fun pss queued => ?_⟩
    · exact absurd (seated.cpu t (onCpu ▸ current)) still
    · rw [look', update_of_ne other]
    · rw [look', update_self]
      refine ⟨both.1, both.2.1, fun listed => ?_⟩
      have onSfq := ((seated.fits t).queued pss).mpr (queued.resolve_right still)
      have early := urgent (alike.1.trans pss) listed
      rw [alike.2.1] at early
      obtain ⟨i, member, _⟩ := (seated.fits t).urgent pss onSfq early
      exact List.ne_nil_of_mem member

/-- What `sched_nice` does to the seats: threads of the other classes keep theirs, and no thread gets a slot. -/
structure Renices (s s' : State) : Prop where
  seated : Seated s'
  others : ∀ u, (s.td u).cls ≠ .pss → s'.seat u = s.seat u
  stays : ∀ u, (s.seat u).Stays (s'.seat u)

namespace Renices
variable {s s' s'' : State} {t : Tid}

theorem same (seated : Seated s') (look : s'.seat = s.seat) : Renices s s' where
  seated := seated
  others u _ := congrFun look u
  stays u := by
    rw [look]
    exact .refl _

theorem trans (first : Renices s s') (second : Renices s' s'') : Renices s s'' where
  seated := second.seated
  others u other := by
    have cls : (s'.td u).cls = (s.td u).cls := congrArg Seat.cls (first.others u other)
    exact (second.others u (cls ▸ other)).trans (first.others u other)
  stays u := (first.stays u).trans (second.stays u)

theorem one (seated : Seated s') (pss : (s.td t).cls = .pss) (others : ∀ u, u ≠ t → s'.seat u = s.seat u)
    (stays : (s.seat t).Stays (s'.seat t)) : Renices s s' where
  seated := seated
  others u other := by
    refine others u ?_
    rintro rfl
    exact other pss
  stays u := by
    by_cases here : u = t
    · exact here ▸ stays
    · rw [others u here]
      exact .refl _

theorem resched (h : Renices s s') (wanted : Prop) [Decidable wanted] :
    Renices s (if wanted then reschedThread s' s'.curthread else s') := by
  split
  · have look : (reschedThread s' s'.curthread).seat = s'.seat := reschedThread_seat ..
    exact h.trans (.same (h.seated.same look ⟨h.seated.groups.parent, h.seated.groups.se⟩) look)
  · exact h

end Renices

theorem schedNiceThread_seated {delta : Int} (seated : Seated s) (run : schedNiceThread delta s t = some s') :
    Renices s s' := by
  have weight (a : State) (groups : Groups a) : Groups (setThreadWeight a t) :=
    (setThreadWeight_charges (r := True) a t).toWrites.groups groups
  have weighed : Renices s (setThreadWeight s t) :=
    .same (seated.same (setThreadWeight_seat ..) (weight s seated.groups)) (setThreadWeight_seat ..)
  unfold schedNiceThread at run
  split at run
  · cases run
    exact weighed
  · rename_i apart
    have pss : (s.td t).cls = .pss := not_not.mp apart
    by_cases running : (s.td t).tdState = .running
    · have born := seated.born (t := t) (by simp [State.seat, running])
      simp only [running, reduceCtorEq, or_true, if_true] at run
      obtain ⟨a, left, run⟩ := Option.bind_eq_some_iff.mp run
      obtain ⟨b, put, run⟩ := Option.bind_eq_some_iff.mp run
      obtain ⟨c, back, run⟩ := Option.bind_eq_some_iff.mp run
      obtain ⟨d, start, run⟩ := Option.bind_eq_some_iff.mp run
      cases run
      obtain ⟨seated', others, stays⟩ := reattach_seated (m := fun a => setThreadWeight a t) seated
        (fun a => setThreadWeight_seat a t) weight born left ((if_pos running).trans put) back
        ((if_pos running).trans start)
      exact (Renices.one seated' pss others (stays pss (.inr running))).resched _
    · by_cases queued : (s.td t).tdState = .runq
      · have born := seated.born (t := t) (by simp [State.seat, queued])
        simp only [queued, reduceCtorEq, or_false, if_true, if_false] at run
        obtain ⟨a, left, run⟩ := Option.bind_eq_some_iff.mp run
        obtain ⟨_, ⟨⟩, run⟩ := Option.bind_eq_some_iff.mp run
        obtain ⟨c, back, run⟩ := Option.bind_eq_some_iff.mp run
        cases run
        obtain ⟨seated', others, stays⟩ := reattach_seated (m := fun a => setThreadWeight a t) seated
          (fun a => setThreadWeight_seat a t) weight born left (if_neg running) back (if_neg running)
        exact (Renices.one seated' pss others (stays pss (.inl queued))).resched _
      · simp only [running, queued, or_self, if_false] at run
        cases run
        exact weighed.resched _

theorem schedNice_seated {p : Pid} {nice : Int} (seated : Seated s) (run : schedNice s p nice = some s') :
    Renices s s' := by
  have loop (delta : Int) (l : List Tid) (s s' : State) (seated : Seated s)
      (run : l.foldlM (schedNiceThread delta) s = some s') : Renices s s' := by
    induction l generalizing s with
    | nil =>
      cases run
      exact .same seated rfl
    | cons t rest ih =>
      rw [List.foldlM_cons] at run
      obtain ⟨a, step, run⟩ := Option.bind_eq_some_iff.mp run
      have first := schedNiceThread_seated seated step
      exact first.trans (ih a first.seated run)
  have stored : Renices s (s.modProc p fun proc => { proc with nice := nice }) :=
    .same (seated.same (seat_modProc ..) ⟨seated.groups.parent, seated.groups.se⟩) (seat_modProc ..)
  exact stored.trans (loop _ _ _ _ stored.seated run)

/-- A thread that is moved sits where it sat, on another queue. -/
theorem schedGroupMove_seated {g : Gid} (seated : Seated s) (run : schedGroupMove s t g = some s') : Seated s' := by
  have move (onRq : Bool) (a : State) : (if ((a.modTd t fun td => { td with group := g }).td t).cls = .pss then
      pssSchedGroupMove (a.modTd t fun td => { td with group := g }) t onRq
      else setThreadRq (a.modTd t fun td => { td with group := g }) t).seat = a.seat := by
    have store : (a.modTd t fun td => { td with group := g }).seat = a.seat := by
      refine seat_modTd_keeps a ?_
      exact ⟨rfl, rfl, rfl⟩
    split
    · exact (pssSchedGroupMove_seat ..).trans store
    · exact (setThreadRq_seat ..).trans store
  have groups (onRq : Bool) (a : State) (groups : Groups a) :
      Groups (if ((a.modTd t fun td => { td with group := g }).td t).cls = .pss then
      pssSchedGroupMove (a.modTd t fun td => { td with group := g }) t onRq
      else setThreadRq (a.modTd t fun td => { td with group := g }) t) := by
    have store : Groups (a.modTd t fun td => { td with group := g }) := ⟨groups.parent, groups.se⟩
    split
    · exact (pssSchedGroupMove_moves (r := True) ..).toWrites.groups store
    · exact (setThreadRq_moves (r := True) ..).toWrites.groups store
  unfold schedGroupMove at run
  by_cases running : (s.td t).tdState = .running
  · have born := seated.born (t := t) (by simp [State.seat, running])
    simp only [running, reduceCtorEq, or_true, if_true, decide_true] at run
    obtain ⟨a, left, run⟩ := Option.bind_eq_some_iff.mp run
    obtain ⟨b, put, run⟩ := Option.bind_eq_some_iff.mp run
    obtain ⟨c, back, run⟩ := Option.bind_eq_some_iff.mp run
    exact (reattach_seated seated (move true) (groups true) born left ((if_pos running).trans put) back
      ((if_pos running).trans run)).1
  · by_cases queued : (s.td t).tdState = .runq
    · have born := seated.born (t := t) (by simp [State.seat, queued])
      simp only [queued, reduceCtorEq, or_false, if_true, if_false, decide_true] at run
      obtain ⟨a, left, run⟩ := Option.bind_eq_some_iff.mp run
      obtain ⟨_, ⟨⟩, run⟩ := Option.bind_eq_some_iff.mp run
      obtain ⟨c, back, run⟩ := Option.bind_eq_some_iff.mp run
      cases run
      exact (reattach_seated seated (move true) (groups true) born left (if_neg running) back (if_neg running)).1
    · simp only [running, queued, or_self, if_false, decide_false] at run
      cases run
      exact seated.same (move false s) (groups false s seated.groups)

/-- The hooks of a class change leave all seats. -/
theorem checkClassChanged_seat {prev : SchedClass} (run : checkClassChanged s t prev = some s') :
    s'.seat = s.seat := by
  have preempt (s s' : State) (run : checkPreemptCurr s t = some s') : s'.seat = s.seat := by
    unfold checkPreemptCurr at run
    dsimp only at run
    split at run
    · exact (pssCheckPreemptCurr_seat run).trans (checkPriorityPreempt_seat ..)
    · cases run
      exact checkPriorityPreempt_seat ..
  have switchedTo (s s' : State) (run : pssSwitchedTo s t = some s') : s'.seat = s.seat := by
    unfold pssSwitchedTo at run
    split at run
    · cases run
      exact addVtime_seat ..
    · split at run
      · cases run
        exact reschedThread_seat ..
      · exact preempt _ _ run
  have first : (if prev = .pss then pssSwitchedFrom s t else s).seat = s.seat := by
    split
    · exact pssSwitchedFrom_seat ..
    · rfl
  unfold checkClassChanged at run
  split at run
  · cases run
    rfl
  · dsimp only at run
    generalize (if prev = .pss then pssSwitchedFrom s t else s) = a at run first
    split at run
    · exact (switchedTo _ _ run).trans first
    · cases run
      exact first

theorem schedClass_seated {priClass : PriClass} (seated : Seated s) (born : (s.seat t).born) (run : schedClass s t priClass = some s') :
    Seated s' := by
  have sound := (seated.fits t).toSound
  have recast (cls : SchedClass) (a : State) (y : Seat) (look : a.seat = update s.seat t y) :
      (a.modTd t fun td => { td with tdPriClass := priClass, cls := cls }).seat = update s.seat t { y with cls := cls } := by
    have here : a.seat t = y := by rw [look, update_self]
    rw [seat_modTd, look, update_idem, update_self, ← here]
    rfl
  have finish (c : State) (y : Seat) (prev : SchedClass) (groups : Groups c) (look : c.seat = update s.seat t y)
      (fits : y.Fits) (cpu : y.onCpu → y.tdState = .running) (stays : y.born = (s.seat t).born)
      (run : checkClassChanged c t prev = some s') : Seated s' :=
    (seated.update look fits cpu (stays.trans born) groups).same (checkClassChanged_seat run)
      ((checkClassChanged_charges run).toWrites.groups groups)
  unfold schedClass at run
  split at run
  · cases run
    exact seated
  · by_cases running : (s.td t).tdState = .running
    · simp only [running, reduceCtorEq, or_true, if_true] at run
      obtain ⟨a, left, run⟩ := Option.bind_eq_some_iff.mp run
      obtain ⟨b, put, run⟩ := Option.bind_eq_some_iff.mp run
      obtain ⟨c, back, run⟩ := Option.bind_eq_some_iff.mp run
      obtain ⟨e, start, run⟩ := Option.bind_eq_some_iff.mp run
      obtain ⟨d, began, rfl⟩ := Option.map_eq_some_iff.mp start
      obtain ⟨x, step, look⟩ := classDequeueThread_seat seated.groups sound.leaf left
      obtain ⟨out, alike, _⟩ := step.out sound
      have groups₁ := (classDequeueThread_charges left).toWrites.groups seated.groups
      have at_a : a.seat t = x := by rw [look, update_self]
      have put' : classPutPrevThread (a.seat t).cls a t 0 = some b := by
        rw [at_a, alike.1]
        exact put
      obtain ⟨y, step', look'⟩ := classPutPrevThread_seat groups₁ (at_a ▸ out.leaf) put'
      rw [at_a] at step'
      rw [look, update_idem] at look'
      obtain ⟨out', alike', _⟩ := step'.out out
      have groups₂ : Groups (b.modTd t fun td =>
          { td with tdPriClass := priClass, cls := getSchedClass s t priClass }) :=
        ⟨((classPutPrevThread_charges put).toWrites.groups groups₁).parent,
          ((classPutPrevThread_charges put).toWrites.groups groups₁).se⟩
      have look₂ := recast (getSchedClass s t priClass) b y look'
      generalize b.modTd t (fun td => { td with tdPriClass := priClass, cls := getSchedClass s t priClass }) = m at look₂ groups₂ back
      have at_m : m.seat t = { y with cls := getSchedClass s t priClass } := by rw [look₂, update_self]
      have out₂ : (m.seat t).Out := by
        rw [at_m]
        exact ⟨out'.leaf, out'.joined, out'.onSfq, out'.onRunq, out'.slots⟩
      have cls_m : (m.seat t).cls = getSchedClass s t priClass := by rw [at_m]
      obtain ⟨z, enq, look₃⟩ := classEnqueueThread_seat groups₂ out₂.leaf (by rw [cls_m]; exact back)
      obtain ⟨fits, alike₂, _, _⟩ := enq.fits out₂
      rw [look₂, update_idem] at look₃
      have groups₃ := (classEnqueueThread_charges back).toWrites.groups groups₂
      have at_c : c.seat t = z := by rw [look₃, update_self]
      have cls_c : (c.seat t).cls = getSchedClass s t priClass := by rw [at_c, alike₂.1, cls_m]
      obtain ⟨w, act, look₄⟩ := classActivateThread_seat groups₃ (at_c ▸ fits.leaf) (by rw [cls_c]; exact began)
      rw [at_c] at act
      obtain ⟨fits', alike₃, runs⟩ := act.fits fits
      have look₅ : (setTdState d t .running).seat = update s.seat t w := by
        rw [setTdState_seat, look₄, update_self, update_idem, look₃, update_idem, ← runs]
      have groups₄ : Groups (setTdState d t .running) :=
        ((classActivateThread_starts groups₃ began).trans (.setTdState ..)).toWrites.groups groups₃
      refine finish _ w _ groups₄ look₅ fits' (fun _ => runs) ?_ run
      rw [alike₃.2.2.2, alike₂.2.2.2, at_m]
      exact (alike.trans alike').2.2.2
    · have offCpu (y : Seat) (same : y.onCpu = (s.seat t).onCpu) (current : y.onCpu) : y.tdState = .running :=
        absurd (seated.cpu t (same ▸ current)) running
      by_cases queued : (s.td t).tdState = .runq
      · simp only [queued, reduceCtorEq, or_false, if_true, if_false] at run
        obtain ⟨a, left, run⟩ := Option.bind_eq_some_iff.mp run
        obtain ⟨_, ⟨⟩, run⟩ := Option.bind_eq_some_iff.mp run
        obtain ⟨c, back, run⟩ := Option.bind_eq_some_iff.mp run
        obtain ⟨_, ⟨⟩, run⟩ := Option.bind_eq_some_iff.mp run
        obtain ⟨y, step, look⟩ := classDequeueThread_seat seated.groups sound.leaf left
        obtain ⟨out, alike, _⟩ := step.out sound
        have groups₁ := (classDequeueThread_charges left).toWrites.groups seated.groups
        have groups₂ : Groups (a.modTd t fun td =>
            { td with tdPriClass := priClass, cls := getSchedClass s t priClass }) := ⟨groups₁.parent, groups₁.se⟩
        have look₂ := recast (getSchedClass s t priClass) a y look
        generalize a.modTd t (fun td => { td with tdPriClass := priClass, cls := getSchedClass s t priClass }) = m at look₂ groups₂ back
        have at_m : m.seat t = { y with cls := getSchedClass s t priClass } := by rw [look₂, update_self]
        have out₂ : (m.seat t).Out := by
          rw [at_m]
          exact ⟨out.leaf, out.joined, out.onSfq, out.onRunq, out.slots⟩
        have cls_m : (m.seat t).cls = getSchedClass s t priClass := by rw [at_m]
        obtain ⟨z, enq, look₃⟩ := classEnqueueThread_seat groups₂ out₂.leaf (by rw [cls_m]; exact back)
        obtain ⟨fits, alike₂, _, _⟩ := enq.fits out₂
        rw [look₂, update_idem] at look₃
        have groups₃ := (classEnqueueThread_charges back).toWrites.groups groups₂
        refine finish _ z _ groups₃ look₃ fits (offCpu z ?_) ?_ run
        · rw [alike₂.2.2.1, at_m]
          exact alike.2.2.1
        · rw [alike₂.2.2.2, at_m]
          exact alike.2.2.2
      · simp only [running, queued, or_self, if_false] at run
        have out := (seated.fits t).out ⟨queued, running⟩
        have look := recast (getSchedClass s t priClass) s (s.seat t) (update_eq_self ..).symm
        have groups : Groups (s.modTd t fun td =>
            { td with tdPriClass := priClass, cls := getSchedClass s t priClass }) :=
          ⟨seated.groups.parent, seated.groups.se⟩
        refine finish _ _ _ groups look ?_ (offCpu _ rfl) rfl run
        exact Seat.Out.fits ⟨out.leaf, out.joined, out.onSfq, out.onRunq, out.slots⟩ ⟨queued, running⟩

end ops
end SfqSched
