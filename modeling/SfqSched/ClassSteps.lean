import SfqSched.DispatchWalk

namespace SfqSched
open State Function

namespace View
variable {v : View} {L : List EntId} {t : Tid} {d : Option EntId}

/-- A joined thread is boosted: the realtime queue and its flag agree. -/
theorem Core.boost (core : v.Core L) (joined : v.joined (.thread t)) : (v.boost t).Core L where
  hier := { core.hier with }
  valid := core.valid
  member := core.member
  nodup := core.nodup
  onSfq := core.onSfq
  covered := core.covered
  curr := core.curr
  currPss := core.currPss
  realtime u := by
    have old := core.realtime u
    dsimp only [View.boost] at *
    grind [update_apply]
  onRunq e := by
    have old := core.onRunq e
    dsimp only [View.boost] at *
    grind [update_apply]
  accounts := core.accounts
  rqWeight := core.rqWeight
  threadWeight := core.threadWeight

/-- The boost ends, and they agree again. -/
theorem Core.unboost (core : v.Core L) : (v.unboost t).Core L where
  hier := { core.hier with }
  valid := core.valid
  member := core.member
  nodup := core.nodup
  onSfq := core.onSfq
  covered := core.covered
  curr := core.curr
  currPss := core.currPss
  realtime u := by
    have old := core.realtime u
    dsimp only [View.unboost] at *
    grind [update_apply]
  onRunq e := by
    have old := core.onRunq e
    dsimp only [View.unboost] at *
    grind [update_apply]
  accounts := core.accounts
  rqWeight := core.rqWeight
  threadWeight := core.threadWeight

/-- The other classes may join or leave a thread that is off the realtime queue. -/
theorem Core.setJoined_other (core : v.Core L) (other : v.cls t ≠ .pss) (inside : t < v.nthreads) (b : Bool)
    (off : v.onRunq (.thread t) = false) : (v.setJoined (.thread t) b).Core L where
  hier := { core.hier with }
  valid e joined := by
    by_cases same : e = .thread t
    · subst same
      exact inside
    · exact core.valid e (by simpa [setJoined, same] using joined)
  member q e member := by
    have old := core.member q e member
    have apart : e ≠ .thread t := by
      rintro rfl
      exact other old.2.1
    simpa [setJoined, apart] using old
  nodup := core.nodup
  onSfq := core.onSfq
  covered e joined pss := by
    have apart : e ≠ .thread t := by
      rintro rfl
      exact other pss
    exact core.covered e (by simpa [setJoined, apart] using joined) pss
  curr := core.curr
  currPss := core.currPss
  realtime := core.realtime
  onRunq e boosted := by
    have apart : e ≠ .thread t := by
      rintro rfl
      exact Bool.noConfusion (off.symm.trans boosted)
    simpa [setJoined, apart] using core.onRunq e boosted
  accounts q := by
    refine (core.accounts q).same (fun e => ?_) (fun _ _ _ _ => rfl) rfl rfl
    by_cases same : e = .thread t
    · subst same
      simp [setJoined, other]
    · simp [setJoined, same]
  rqWeight := core.rqWeight
  threadWeight := core.threadWeight

theorem Tight.setJoined_other (tight : v.Tight d) (other : v.cls t ≠ .pss) (b : Bool) :
    (v.setJoined (.thread t) b).Tight d where
  shares := tight.shares
  weight e joined pss := by
    have apart : e ≠ .thread t := by
      rintro rfl
      exact other pss
    exact tight.weight e (by simpa [setJoined, apart] using joined) pss
  groups g pos inside loose := by simpa [setJoined] using tight.groups g pos inside loose
  apart := tight.apart

theorem Filled.setJoined_other (filled : v.Filled d) (b : Bool) : (v.setJoined (.thread t) b).Filled d := by
  intro g pos inside loose joined
  exact filled g pos inside loose (by simpa [setJoined] using joined)

theorem Tight.boost (tight : v.Tight d) : (v.boost t).Tight d := { tight with }
theorem Tight.unboost (tight : v.Tight d) : (v.unboost t).Tight d := { tight with }

end View

section realtime
variable {C : Conds} {s s' : State} {L : List EntId} {t : Tid} {flags : Nat}

/-- The invariant does not care about boosts of joined threads. -/
theorem Inv.of_boost {d : Option EntId} (inv : Inv C s L d) (joined : s.view.joined (.thread t))
    (same : s'.view.bones = (s.view.boost t).bones) : Inv C s' L d where
  core := View.core_bones.mp (same ▸ View.core_bones.mpr (inv.core.boost joined))
  tight positive := View.tight_bones.mp (same ▸ View.tight_bones.mpr (inv.tight positive).boost)
  filled := View.filled_bones.mp (same ▸ inv.filled)

/-- Nor about their ends. -/
theorem Inv.of_unboost {d : Option EntId} (inv : Inv C s L d)
    (same : s'.view.bones = (s.view.unboost t).bones) : Inv C s' L d where
  core := View.core_bones.mp (same ▸ View.core_bones.mpr inv.core.unboost)
  tight positive := View.tight_bones.mp (same ▸ View.tight_bones.mpr (inv.tight positive).unboost)
  filled := View.filled_bones.mp (same ▸ inv.filled)

/-- A realtime thread is joined, queued and runnable. -/
theorem rtEnqueueThread_view (run : rtEnqueueThread s t flags = some s') :
    s.view.onRunq (.thread t) = false ∧
      s'.view = { (s.view.setJoined (.thread t) true).boost t with
        tdState := update s.view.tdState t .runq
        nrRunning := s.view.nrRunning + 1
        nrSysrunning := if s.view.noLoad t then s.view.nrSysrunning else s.view.nrSysrunning + 1 } := by
  unfold rtEnqueueThread at run
  dsimp only at run
  split at run
  · cases run
  · rename_i free
    simp only [not_or, Bool.not_eq_true] at free
    cases run
    refine ⟨free.2.1, ?_⟩
    simp [view_modEnt, rqRunAdd_view, runqAdd_view, View.setJoined, View.boost]

theorem rtEnqueueThread_books (run : rtEnqueueThread s t flags = some s') : s'.books = s.books := by
  unfold rtEnqueueThread at run
  dsimp only at run
  split at run
  · cases run
  · cases run
    simp [books_modEnt, (rqRunAdd_quiet _ _).books]

theorem rtEnqueueThread_steady (run : rtEnqueueThread s t flags = some s') : Steady s s' := by
  unfold rtEnqueueThread at run
  dsimp only at run
  split at run
  · cases run
  · cases run
    refine Steady.trans (Steady.trans ?_ (rqRunAdd_quiet _ _).steady) (.modEnt _ _ _ ?_ rfl)
    · refine Steady.trans (Steady.trans (runqAdd_steady ..) (.modEnt _ _ _ ?_ rfl)) (setTdState_steady ..)
      exact fun _ _ _ => rfl
    · exact fun _ _ _ => rfl

/-- A change of a thread of another class is none for the entities of this one. -/
theorem Quiet.other (cls : s.view.cls t ≠ .pss) (books : s'.books = s.books) (steady : Steady s s')
    (nthreads : s'.view.nthreads = s.view.nthreads) (same : s'.view.cls = s.view.cls)
    (exited : s'.view.exited = s.view.exited) (curr : s'.view.curr = s.view.curr)
    (shares : s'.view.shares = s.view.shares) (weight : s'.view.weight = s.view.weight)
    (sfq : s'.view.sfq = s.view.sfq) (joined : ∀ e, e ≠ .thread t → s'.view.joined e = s.view.joined e)
    (initial : ∀ u, u ≠ t → s'.view.initial (.thread u) = s.view.initial (.thread u))
    (state : ∀ u, u ≠ t → s'.view.tdState u = s.view.tdState u) :
    Quiet s s' where
  books := books
  steady := steady
  nthreads := nthreads
  cls := same
  exited := exited
  curr := curr
  shares := shares
  weight g := by rw [weight]
  seated e := by
    by_cases here : e = .thread t
    · subst here
      simp [View.seated, same, cls]
    · simp [View.seated, same, joined e here]
  sfq e _ := by rw [sfq]
  absolute u _ := by
    rw [sfq]
    refine ⟨?_, fun _ => rfl⟩
    by_cases here : u = t
    · subst here
      simp [View.absolute, same, cls]
    · simp [View.absolute, View.resting, same, joined (.thread u) (by simpa using here), initial u here, state u here]

/-- A realtime thread is put on its queue. -/
theorem rtEnqueueThread_reaches (inv : Inv C s L none) (cls : s.view.cls t = .realtime)
    (inside : t < s.view.nthreads) (run : rtEnqueueThread s t flags = some s') :
    Reaches C s s' L (s.view.roster.attach t) := by
  obtain ⟨off, look⟩ := rtEnqueueThread_view run
  have other : s.view.cls t ≠ .pss := by simp [cls]
  have quiet : Quiet s s' := by
    refine .other other (rtEnqueueThread_books run) (rtEnqueueThread_steady run) ?_ ?_ ?_ ?_ ?_ ?_ ?_ ?_ ?_ ?_ <;>
      rw [look]
    any_goals rfl
    · intro e apart
      simp [View.boost, View.setJoined, apart]
    · intro u _
      rfl
    · intro u apart
      simp [apart]
  have core := (inv.core.setJoined_other other inside true off).boost (t := t) (by simp [View.setJoined])
  have bones : s'.view.bones = ((s.view.setJoined (.thread t) true).boost t).bones := by rw [look]; rfl
  refine ⟨.quiet inv quiet, ⟨?_, fun positive => ?_, ?_⟩, ?_, ?_⟩
  · exact View.core_bones.mp (bones ▸ View.core_bones.mpr core)
  · have tight := ((inv.tight positive).setJoined_other other true).boost (t := t)
    exact View.tight_bones.mp (bones ▸ View.tight_bones.mpr tight)
  · have filled := inv.filled.setJoined_other (t := t) true
    exact View.filled_bones.mp (bones ▸ filled)
  · rw [look]
    simp [View.roster, View.boost, View.setJoined, update_thread, Roster.attach]
    rfl
  · rw [look]
    rfl

/-- The first part of `rt_dequeue_thread`. -/
theorem rawRunqDequeue_quiet (other : s.view.cls t ≠ .pss) : Quiet s (rawRunqDequeue s t) := by
  refine .other other (by simp) (rawRunqDequeue_steady ..) ?_ ?_ ?_ ?_ ?_ ?_ ?_ ?_ ?_ ?_ <;>
    rw [rawRunqDequeue_view] <;> split <;> simp [View.unboost]

theorem rawRunqDequeue_inv {d : Option EntId} (inv : Inv C s L d) : Inv C (rawRunqDequeue s t) L d := by
  by_cases boosted : s.view.onRunq (.thread t)
  · exact inv.of_unboost (t := t) (by rw [rawRunqDequeue_view, if_pos boosted])
  · exact inv.of_bones (by rw [rawRunqDequeue_view, if_neg boosted])

/-- A joined realtime thread is taken off its queue and uncounted. -/
theorem rtDequeueThread_parts (run : rtDequeueThread s t = some s') (joined : s.view.joined (.thread t)) :
    ∃ a, rqRunRem (rawRunqDequeue s t) t = some a ∧
      s' = a.modEnt (.thread t) fun se => { se with joined := false } := by
  unfold rtDequeueThread at run
  rw [if_pos (show (s.ent (.thread t)).joined = true from joined)] at run
  obtain ⟨a, rem, run⟩ := Option.bind_eq_some_iff.mp run
  split at run
  · cases run
  · exact ⟨a, rem, (Option.some.inj run).symm⟩

/-- A realtime thread is taken off its queue. -/
theorem rtDequeueThread_reaches (inv : Inv C s L none) (cls : s.view.cls t = .realtime)
    (joined : s.view.joined (.thread t)) (counted : s.view.roster.Counted)
    (run : rtDequeueThread s t = some s') : Reaches C s s' L (s.view.roster.detach t) := by
  obtain ⟨a, rem, rfl⟩ := rtDequeueThread_parts run joined
  have other : s.view.cls t ≠ .pss := by simp [cls]
  have inside : t < s.view.nthreads := inv.core.valid _ joined
  have first : Inv C (rawRunqDequeue s t) L none := rawRunqDequeue_inv inv
  have roster : (rawRunqDequeue s t).view.roster = s.view.roster := by
    rw [rawRunqDequeue_view]
    split <;> rfl
  have frame : (rawRunqDequeue s t).view.frame = s.view.frame := by
    rw [rawRunqDequeue_view]
    split <;> rfl
  have off : (rawRunqDequeue s t).view.onRunq (.thread t) = false := by
    rw [rawRunqDequeue_view]
    split
    · simp [View.unboost]
    · rename_i absent
      simpa using absent
  have other' : (rawRunqDequeue s t).view.cls t ≠ .pss := by
    have same : (rawRunqDequeue s t).view.cls = s.view.cls := congrArg Roster.cls roster
    rw [same]
    exact other
  have enough : (rawRunqDequeue s t).view.noLoad t = false → 0 < (rawRunqDequeue s t).view.nrSysrunning := by
    have noLoad : (rawRunqDequeue s t).view.noLoad = s.view.noLoad := congrArg Roster.noLoad roster
    have load : (rawRunqDequeue s t).view.nrSysrunning = s.view.nrSysrunning := congrArg Roster.nrSysrunning roster
    rw [noLoad, load]
    exact (counted.enough (t := t) joined).2
  have second : Inv C a L none := first.of_bones (by rw [rqRunRem_view rem]; rfl)
  have other'' : a.view.cls t ≠ .pss := by
    rw [rqRunRem_view rem]
    exact other'
  have off' : a.view.onRunq (.thread t) = false := by
    rw [rqRunRem_view rem]
    exact off
  have inside' : t < a.view.nthreads := by
    have same : (rawRunqDequeue s t).view.nthreads = s.view.nthreads := congrArg Roster.nthreads roster
    rw [rqRunRem_view rem]
    exact same ▸ inside
  have look : (a.modEnt (.thread t) fun se => { se with joined := false }).view = a.view.setJoined (.thread t) false := by
    simp [view_modEnt, View.setJoined]
  have quiet : Quiet a (a.modEnt (.thread t) fun se => { se with joined := false }) := by
    refine .other other'' (by simp [books_modEnt]) (.modEnt _ _ _ (fun _ _ _ => rfl) rfl) ?_ ?_ ?_ ?_ ?_ ?_ ?_ ?_ ?_ ?_ <;>
      rw [look]
    any_goals rfl
    · intro e apart
      simp [View.setJoined, apart]
    · intro u _
      rfl
    · intro u _
      rfl
  refine ⟨?_, ⟨?_, fun positive => ?_, ?_⟩, ?_, ?_⟩
  · exact (Path.quiet inv (rawRunqDequeue_quiet other)).trans
      ((Path.flow first (.uncount t rem enough)).trans (.quiet second quiet))
  · rw [look]
    exact second.core.setJoined_other other'' inside' false off'
  · rw [look]
    exact (second.tight positive).setJoined_other other'' false
  · rw [look]
    exact second.filled.setJoined_other false
  · rw [look, rqRunRem_view rem]
    simp only [View.setJoined]
    rw [show Roster.detach s.view.roster t = Roster.detach (rawRunqDequeue s t).view.roster t by rw [roster]]
    simp [View.roster, update_thread, Roster.detach]
    rfl
  · rw [look, rqRunRem_view rem]
    exact frame

theorem rtPutPrevThread_cases (run : rtPutPrevThread s t flags = some s') :
    (s.view.joined (.thread t) = false ∧ s'.view = s.view ∧ s'.books = s.books ∧ Steady s s') ∨
      (s.view.joined (.thread t) ∧
        s'.view = { s.view.boost t with tdState := update s.view.tdState t .runq } ∧
        s'.books = s.books ∧ Steady s s') := by
  unfold rtPutPrevThread at run
  dsimp only at run
  split at run
  · rename_i joined
    split at run
    · cases run
    · cases run
      refine .inr ⟨joined, ?_, ?_, ?_⟩
      · simp [view_modRq, view_modEnt, runqAdd_view, View.boost]
      · simp [books_modRq, books_modEnt]
      · refine Steady.trans (Steady.trans ?_ (.modEnt _ _ _ ?_ rfl)) (.modRq ..)
        · exact (setTdState_steady ..).trans (runqAdd_steady ..)
        · exact fun _ _ _ => rfl
  · rename_i apart
    cases run
    refine .inl ⟨by simpa using apart, ?_, ?_, .modRq ..⟩
    · simp [view_modRq]
    · simp [books_modRq]

/-- A realtime thread that had the CPU is back on its queue. -/
theorem rtPutPrevThread_reaches (inv : Inv C s L none) (cls : s.view.cls t = .realtime)
    (run : rtPutPrevThread s t flags = some s') : Reaches C s s' L (s.view.roster.putBack (.thread t)) := by
  have other : s.view.cls t ≠ .pss := by simp [cls]
  rcases rtPutPrevThread_cases run with ⟨apart, look, books, steady⟩ | ⟨joined, look, books, steady⟩
  · have out : s.view.roster.joined t = false := apart
    simp only [Roster.putBack, out, Bool.false_eq_true, if_false]
    exact ⟨.quiet inv (.of_view look books steady), inv.of_bones (by rw [look]), by rw [look], by rw [look]⟩
  · have inside : s.view.roster.joined t := joined
    simp only [Roster.putBack, inside, if_true]
    have quiet : Quiet s s' := by
      refine .other other books steady ?_ ?_ ?_ ?_ ?_ ?_ ?_ ?_ ?_ ?_ <;> rw [look]
      any_goals rfl
      · intro e _
        rfl
      · intro u _
        rfl
      · intro u apart
        simp [apart]
    exact ⟨.quiet inv quiet, inv.of_boost joined (by rw [look]; rfl), by rw [look]; rfl, by rw [look]; rfl⟩

theorem rtActivateThread_spec (run : rtActivateThread s t = some s') :
    s.view.joined (.thread t) ∧
      s'.view = { s.view.unboost t with tdState := update s.view.tdState t .running } ∧
      (∃ start, s'.books = { s.books with timingStart := update s.books.timingStart (.thread t) start }) ∧
      Steady s s' := by
  unfold rtActivateThread at run
  dsimp only at run
  split at run
  · rename_i fits
    cases run
    refine ⟨fits.1, ?_, ⟨s.kernel.schedTimeCpu s.reads, ?_⟩, ?_⟩
    · have look : (State.modEnt (runqRemove s t) (.thread t) fun se =>
          { se with onRunq := false, timingStart := s.kernel.schedTimeCpu s.reads,
                    prevSumExecTime := se.sumExecTime }).view = s.view.unboost t := by
        simp [view_modEnt, runqRemove_view, View.unboost]
      rw [setTdState_view]
      exact congrArg (fun v : View => { v with tdState := update v.tdState t .running }) look
    · have look : (State.modEnt (runqRemove s t) (.thread t) fun se =>
          { se with onRunq := false, timingStart := s.kernel.schedTimeCpu s.reads,
                    prevSumExecTime := se.sumExecTime }).books =
          { s.books with timingStart := update s.books.timingStart (.thread t) (s.kernel.schedTimeCpu s.reads) } := by
        simp [books_modEnt]
      exact look
    · have store : Steady (runqRemove s t) (State.modEnt (runqRemove s t) (.thread t) fun se =>
          { se with onRunq := false, timingStart := s.kernel.schedTimeCpu s.reads,
                    prevSumExecTime := se.sumExecTime }) := .modEnt _ _ _ (fun _ _ _ => rfl) rfl
      have both := (runqRemove_steady s t).trans store
      refine Steady.trans ?_ (setTdState_steady ..)
      exact ⟨both.tun, both.proc, both.nprocs, both.nthreads, both.exited, both.pid, both.priClass, both.load,
        both.calls.trans (.still rfl rfl rfl), both.queues⟩
  · cases run

/-- A realtime thread gets the CPU. -/
theorem rtActivateThread_reaches (inv : Inv C s [] none) (cls : s.view.cls t = .realtime)
    (run : rtActivateThread s t = some s') :
    Reaches C s s' [] (s.view.roster.setState t .running) ∧ s.view.joined (.thread t) := by
  obtain ⟨joined, look, _, _⟩ := rtActivateThread_spec run
  have vacant : s.view.vacant := by
    intro q
    cases there : s.view.curr q with
    | none => rfl
    | some e => simp [inv.core.curr] at there
  refine ⟨⟨.flow inv (.rtActivate t run cls vacant), ?_, ?_, ?_⟩, joined⟩
  · exact inv.of_unboost (t := t) (by rw [look]; rfl)
  · rw [look]
    rfl
  · rw [look]
    rfl

/-- A thread state matters only to threads of `pss_class` that are not joined. -/
theorem setTdState_reaches {st : TdState} (inv : Inv C s L none)
    (form : s.view.cls t ≠ .pss ∨ s.view.joined (.thread t) ∨ s.view.initial (.thread t) ∨
      (s.view.resting t ↔ st ≠ .runq ∧ st ≠ .running)) :
    Reaches C s (setTdState s t st) L (s.view.roster.setState t st) := by
  have quiet : Quiet s (setTdState s t st) := by
    constructor <;> try simp
    · exact setTdState_steady ..
    · intro e
      simp [View.seated]
    · intro u _
      by_cases same : u = t
      · subst same
        simp only [View.absolute, View.resting, update_self] at form ⊢
        rcases form with other | joined | initial | same
        · simp [other]
        · simp [joined]
        · simp [initial]
        · rw [same]
      · simp [View.absolute, View.resting, same]
  exact ⟨.quiet inv quiet, inv.of_bones (by rw [setTdState_view]; rfl), by rw [setTdState_view]; rfl,
    by rw [setTdState_view]; rfl⟩

end realtime

section classes
variable {C : Conds} {s s' : State} {L : List EntId} {t : Tid} {flags : Nat}

/-- The entities current on some queue while a thread runs. -/
def cpuChain (s : State) (t : Tid) : List EntId :=
  if s.view.cls t = .pss then walkup s (some (.thread t)) else []

/-- `pss_enqueue_thread` of a thread that is not joined. -/
theorem pssEnqueueThread_reaches (inv : Inv C s L none) (time : TimeFits C s.view) (inside : t < s.view.nthreads)
    (apart : s.view.joined (.thread t) = false) (cls : s.view.cls t = .pss)
    (form : forked t → (flags &&& enqueueWakeup ≠ 0 ↔ s.view.absolute t)) :
    ∃ s', pssEnqueueThread s t flags = some s' ∧ Reaches C s s' L (s.view.roster.attach t) := by
  have away (which : C.positive ∨ ∃ u, EntId.thread t = .thread u) :
      s.view.curr (s.view.sfq (.thread t)) ≠ some (.thread t) := fun current =>
    Bool.noConfusion (apart.symm.trans (time _ _ current which))
  have fits : EnqueueFits C s.view (.thread t) := ⟨cls, inside, away, by simp⟩
  exact pssEnqueueThread_after inv inv rfl time apart fits
    fun s₁ step => .enqueue _ _ step fits (by rintro u ⟨⟩; exact form)

/-- A thread is queued, whatever its class. -/
theorem classEnqueueThread_reaches (inv : Inv C s L none) (time : TimeFits C s.view)
    (inside : t < s.view.nthreads) (apart : s.view.joined (.thread t) = false)
    (form : s.view.cls t = .pss → forked t → (flags &&& enqueueWakeup ≠ 0 ↔ s.view.absolute t))
    (run : classEnqueueThread (s.view.cls t) s t flags = some s') :
    Reaches C s s' L (if s.view.cls t = .idle then s.view.roster else s.view.roster.attach t) := by
  cases cls : s.view.cls t with
  | realtime =>
    rw [cls] at run
    exact rtEnqueueThread_reaches inv cls inside run
  | pss =>
    rw [cls] at run
    obtain ⟨_, done, reaches⟩ := pssEnqueueThread_reaches inv time inside apart cls (form cls)
    cases done.symm.trans run
    exact reaches
  | idle =>
    rw [cls] at run
    cases run
    exact .refl inv

/-- A thread is taken off its queue, whatever its class. -/
theorem classDequeueThread_reaches (inv : Inv C s L none) (joined : s.view.cls t ≠ .idle → s.view.joined (.thread t))
    (counted : s.view.roster.Counted)
    (form : s.view.cls t = .pss → forked t →
      s.view.initial (.thread t) = false ∧ (flags &&& dequeueSleep ≠ 0 ↔ s.view.resting t))
    (run : classDequeueThread (s.view.cls t) s t flags = some s') :
    Reaches C s s' L (if s.view.cls t = .idle then s.view.roster else s.view.roster.detach t) := by
  cases cls : s.view.cls t with
  | realtime =>
    rw [cls] at run
    exact rtDequeueThread_reaches inv cls (joined (by simp [cls])) counted run
  | pss =>
    rw [cls] at run
    obtain ⟨_, done, reaches⟩ := pssDequeueThread_reaches inv cls (joined (by simp [cls])) counted (form cls)
    cases done.symm.trans run
    exact reaches
  | idle =>
    rw [cls] at run
    cases run
    exact .refl inv

/-- The thread that had the CPU is put back, whatever its class. -/
theorem classPutPrevThread_reaches (inv : Inv C s (cpuChain s t) none)
    (run : classPutPrevThread (s.view.cls t) s t flags = some s') :
    Reaches C s s' [] (if s.view.cls t = .idle then s.view.roster.setState t .canRun
      else s.view.roster.putBack (.thread t)) := by
  unfold cpuChain at inv
  cases cls : s.view.cls t with
  | realtime =>
    rw [cls] at run inv
    exact rtPutPrevThread_reaches inv cls run
  | pss =>
    rw [cls] at run inv
    exact pssPutPrevThread_reaches inv cls run
  | idle =>
    rw [cls] at run inv
    cases run
    exact setTdState_reaches inv (.inl (by simp [cls]))

/-- A thread gets the CPU, whatever its class. -/
theorem classActivateThread_reaches (inv : Inv C s [] none)
    (run : classActivateThread (s.view.cls t) s t = some s') :
    Reaches C s s' (cpuChain s t) (s.view.roster.setState t .running) ∧
      (s.view.cls t ≠ .idle → s.view.joined (.thread t)) := by
  unfold cpuChain
  cases cls : s.view.cls t with
  | realtime =>
    rw [cls] at run
    obtain ⟨reaches, joined⟩ := rtActivateThread_reaches inv cls run
    exact ⟨reaches, fun _ => joined⟩
  | pss =>
    rw [cls] at run
    obtain ⟨reaches, joined⟩ := pssActivateThread_reaches inv cls run
    exact ⟨reaches, fun _ => joined⟩
  | idle =>
    rw [cls] at run
    cases run
    exact ⟨setTdState_reaches inv (.inl (by simp [cls])), by simp⟩

end classes
end SfqSched
