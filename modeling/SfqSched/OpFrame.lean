import SfqSched.MoveSteps
import SfqSched.SchedFrame

namespace SfqSched
open State Function

section footprints

/-- What the operations write that ask no thread to give up the CPU. -/
def settling : Cell → Bool
  | .asked => false
  | c => scheduling c

/-- What is written when a thread that is off its queue is given another group. -/
def placing : Cell → Bool
  | .place | .tdGroup => true
  | c => charging c

/-- What a fork writes: anything but the tunables, the tree of groups and the leaf list. -/
def forking : Cell → Bool
  | .tun | .ngroups | .owner | .tree | .onLeafList | .leafSfqList => false
  | _ => true

theorem dispatching_listing : dispatching ⊔ listing ≤ scheduling ⊔ listing := sup_le_sup_right dispatching_scheduling _

/-- What asks no thread is a part of what may ask one. -/
theorem settling_scheduling : settling ≤ scheduling := fun c => by cases c <;> decide
theorem ticking_settling : ticking ≤ settling := fun c => by cases c <;> decide
theorem weighing_settling : weighing ≤ settling := fun c => by cases c <;> decide
theorem charging_settling : charging ≤ settling := fun c => by cases c <;> decide
theorem timing_placing : timing ≤ placing := fun c => by cases c <;> decide

/-- The footprints of the lower functions, inside those of the operations. -/
theorem charging_scheduling : charging ≤ scheduling := charging_dispatching.trans dispatching_scheduling
theorem shelving_scheduling : shelving ≤ scheduling := fun c => by cases c <;> decide

/-- A fork may preempt as any operation may. -/
theorem scheduling_forking : scheduling ≤ forking := fun c => by cases c <;> decide

end footprints

section operations
variable {s s' : State} {t : Tid} {flags : Nat}

/-- A thread that is put back on the CPU in the middle of an operation. -/
theorem resume_changes (run : ((activateThread s t).map fun s => setTdState s t .running) = some s') :
    Changes scheduling s s' := by
  obtain ⟨a, act, rfl⟩ := Option.map_eq_some_iff.mp run
  exact ((activateThread_changes act).mono dispatching_scheduling).trans (.modTd _ _ _ rfl)

/-- A thread is off its queue while its weight changes, and may be its queue's first when it is back. -/
theorem schedNiceThread_changes {delta : Int} (run : schedNiceThread delta s t = some s') :
    Changes (scheduling ⊔ listing) s s' := by
  have weighed (s : State) : Changes scheduling s (setThreadWeight s t) := .modEnt _ _ _ rfl
  by_cases pss : (s.td t).cls = .pss
  · obtain ⟨a, b, c, d, deq, put, enq, act, rfl⟩ := schedNiceThread_parts pss run
    have first : Changes dispatching s a := .optional (f := fun s => dequeueThread s t 0) dequeueThread_changes deq
    have second : Changes dispatching a b := .optional (f := fun s => putPrevThread s t 0) putPrevThread_changes put
    have third : Changes (dispatching ⊔ listing) (setThreadWeight b t) c :=
      .optional (f := fun s => enqueueThread s t 0) enqueueThread_changes enq
    have fourth : Changes scheduling c d :=
      .optional (f := fun s => (activateThread s t).map fun s => setTdState s t .running) resume_changes act
    have before := ((first.trans second).mono dispatching_scheduling).trans (weighed b)
    have all := ((before.mono le_sup_left).trans (third.mono dispatching_listing)).trans (fourth.mono le_sup_left)
    exact .ite (all.trans ((reschedThread_scheduling ..).mono le_sup_left)) all
  · unfold schedNiceThread at run
    rw [if_pos pss] at run
    cases run
    exact (weighed s).mono le_sup_left

/-- `sched_nice` visits the threads of the process one by one. -/
theorem schedNice_changes {p : Pid} {nice : Int} (run : schedNice s p nice = some s') :
    Changes (scheduling ⊔ listing) s s' :=
  .trans (.modProc _ _ _ rfl) (.foldlM schedNiceThread_changes run)

/-- `sched_class` takes the thread off its queue, stores the class and puts it back. -/
theorem schedClass_changes {priClass : PriClass} (run : schedClass s t priClass = some s') :
    Changes (scheduling ⊔ listing) s s' := by
  unfold schedClass at run
  split at run
  · exact .of_eq (Option.some.inj run).symm
  · have stored (a : State) : Changes (scheduling ⊔ listing) a (storeClass a t priClass (getSchedClass s t priClass)) :=
      .modTd _ _ _ rfl
    by_cases running : (s.td t).tdState = .running
    · simp only [running, reduceCtorEq, or_true, if_true] at run
      obtain ⟨a, left, run⟩ := Option.bind_eq_some_iff.mp run
      obtain ⟨b, put, run⟩ := Option.bind_eq_some_iff.mp run
      obtain ⟨c, back, run⟩ := Option.bind_eq_some_iff.mp run
      obtain ⟨e, start, run⟩ := Option.bind_eq_some_iff.mp run
      obtain ⟨d, began, rfl⟩ := Option.map_eq_some_iff.mp start
      have away := ((classDequeueThread_changes left).trans (classPutPrevThread_changes put)).mono dispatching_scheduling
      have again := (classEnqueueThread_changes back).mono dispatching_listing
      have began' : Changes scheduling c (setTdState d t .running) :=
        ((classActivateThread_changes began).mono dispatching_scheduling).trans (.modTd _ _ _ rfl)
      have last := (began'.trans (checkClassChanged_changes run)).mono (le_sup_left (b := listing))
      exact (((away.mono le_sup_left).trans (stored b)).trans again).trans last
    · by_cases queued : (s.td t).tdState = .runq
      · simp only [queued, reduceCtorEq, or_false, if_true, if_false] at run
        obtain ⟨a, left, run⟩ := Option.bind_eq_some_iff.mp run
        obtain ⟨_, ⟨⟩, run⟩ := Option.bind_eq_some_iff.mp run
        obtain ⟨c, back, run⟩ := Option.bind_eq_some_iff.mp run
        obtain ⟨_, ⟨⟩, run⟩ := Option.bind_eq_some_iff.mp run
        have away := (classDequeueThread_changes left).mono (dispatching_scheduling.trans (le_sup_left (b := listing)))
        have again := (classEnqueueThread_changes back).mono dispatching_listing
        exact ((away.trans (stored a)).trans again).trans ((checkClassChanged_changes run).mono le_sup_left)
      · simp only [running, queued, or_self, if_false] at run
        exact (stored s).trans ((checkClassChanged_changes run).mono le_sup_left)

/-- `sched_add` queues the thread and checks whether it preempts. -/
theorem schedAdd_changes (run : schedAdd s t = some s') : Changes (scheduling ⊔ listing) s s' := by
  obtain ⟨a, enq, check⟩ := Option.bind_eq_some_iff.mp run
  have begun : Changes (scheduling ⊔ listing) s (s.modEnt (.thread t) fun se => { se with initial := false }) :=
    .modEnt _ _ _ rfl
  exact (begun.trans ((enqueueThread_changes enq).mono dispatching_listing)).trans
    ((checkPreemptCurr_changes check).mono (preempting_scheduling.trans le_sup_left))

/-- Between the queues a moved thread is given its group, its place there and its vtime there. -/
theorem moveThread_changes (s : State) (t : Tid) (g : Gid) (onRq : Bool) : Changes placing s (moveThread s t g onRq) := by
  have stored : Changes placing s (storeGroup s t g) := .modTd _ _ _ rfl
  have settled (s : State) : Changes placing s (setThreadRq s t) := .modEnt _ _ _ rfl
  have moved (s : State) : Changes placing s (pssSchedGroupMove s t onRq) := by
    have off (e : EntId) (q : Gid) (p : Prop) [Decidable p] : Changes placing s (if p then subVtime s q e else s) :=
      .ite ((subVtime_changes ..).mono timing_placing) (.refl s)
    exact ((off ..).trans (settled _)).trans (.ite ((addVtime_changes ..).mono timing_placing) (.refl _))
  exact .ite (stored.trans (moved _)) (stored.trans (settled _))

/-- A thread that is queued or running is taken off before it is moved and put on again behind. -/
theorem schedGroupMove_parts {g : Gid} (run : schedGroupMove s t g = some s') : ∃ b onRq, Changes dispatching s b ∧
    (s' = moveThread b t g onRq ∨ ((s.td t).tdState = .runq ∨ (s.td t).tdState = .running) ∧
      ∃ c, enqueueThread (moveThread b t g onRq) t 0 = some c ∧ Changes scheduling c s') := by
  unfold schedGroupMove at run
  by_cases running : (s.td t).tdState = .running
  · simp only [running, reduceCtorEq, or_true, if_true, decide_true] at run
    obtain ⟨a, left, run⟩ := Option.bind_eq_some_iff.mp run
    obtain ⟨b, put, run⟩ := Option.bind_eq_some_iff.mp run
    obtain ⟨c, back, run⟩ := Option.bind_eq_some_iff.mp run
    have away := (dequeueThread_changes left).trans (putPrevThread_changes put)
    exact ⟨b, true, away, .inr ⟨.inr running, c, back, resume_changes run⟩⟩
  · by_cases queued : (s.td t).tdState = .runq
    · simp only [queued, reduceCtorEq, or_false, if_true, if_false, decide_true] at run
      obtain ⟨a, left, run⟩ := Option.bind_eq_some_iff.mp run
      obtain ⟨_, ⟨⟩, run⟩ := Option.bind_eq_some_iff.mp run
      obtain ⟨c, back, run⟩ := Option.bind_eq_some_iff.mp run
      cases run
      exact ⟨a, true, dequeueThread_changes left, .inr ⟨.inl queued, _, back, .refl _⟩⟩
    · simp only [running, queued, or_self, if_false, decide_false] at run
      cases run
      exact ⟨s, false, .refl s, .inl rfl⟩

/-- The tick of the class of the running thread. -/
theorem schedTick_changes (s : State) : Changes scheduling s (schedTick s) := by
  have clock := (updateRqClock_changes s).mono (ticking_dispatching.trans dispatching_scheduling)
  unfold schedTick
  dsimp only
  split
  · refine clock.trans ?_
    unfold rtTick
    dsimp only
    have read (s : State) : Changes scheduling s { s with reads := s.reads + 1 } := .setReads _ _ rfl
    split
    · exact .refl _
    · exact .refl _
    · exact .ite ((read _).trans (reschedThread_scheduling ..)) (read _)
  · exact clock.trans ((pssTickThread_changes ..).mono preempting_scheduling)
  · exact clock

/-- A priority is stored with the thread off the realtime queue, where its place depends on it. -/
theorem schedThreadPriority_changes {p : Nat} (run : schedThreadPriority s t p = some s') : Changes scheduling s s' := by
  have stored (s : State) : Changes scheduling s (s.modTd t fun td => { td with tdPriority := p }) := .modTd _ _ _ rfl
  have checked (s : State) := (checkPriorityPreempt_changes s t).mono asking_scheduling
  unfold schedThreadPriority at run
  split at run
  · exact .of_eq (Option.some.inj run).symm
  · split at run
    · unfold rtChangePriority at run
      split at run
      · split at run
        · cases run
          have off : Changes scheduling s (runqRemove s t) := .modRq _ _ rfl
          exact ((off.trans (stored _)).trans (.modRq _ _ rfl)).trans (checked _)
        · cases run
      · exact Option.some.inj run ▸ stored s
    · unfold pssChangePriority at run
      split at run
      · have off := ((rawRunqDequeue_changes s t).mono shelving_scheduling).trans (stored _)
        dsimp only at run
        split at run
        · obtain ⟨a, queued, run⟩ := Option.bind_eq_some_iff.mp run
          cases run
          exact (off.trans ((rawRunqEnqueue_changes queued).mono shelving_scheduling)).trans (checked a)
        · cases run
          exact off.trans (checked _)
      · exact Option.some.inj run ▸ stored s
    · exact .of_eq (Option.some.inj run).symm

theorem schedLendPrio_changes {p : Nat} (run : schedLendPrio s t p = some s') : Changes scheduling s s' :=
  .trans (.modTd _ _ _ rfl) (schedThreadPriority_changes run)

theorem schedUnlendPrio_changes {p : Nat} (run : schedUnlendPrio s t p = some s') : Changes scheduling s s' := by
  unfold schedUnlendPrio at run
  dsimp only at run
  generalize (if puser ≤ (s.td t).tdBasePri ∧ (s.td t).tdBasePri ≤ 223 then (s.td t).tdUserPri
    else (s.td t).tdBasePri) = base at run
  split at run
  · exact .trans (.modTd _ _ _ rfl) (schedThreadPriority_changes run)
  · exact schedLendPrio_changes run

theorem schedPrio_changes {p : Nat} (run : schedPrio s t p = some s') : Changes scheduling s s' := by
  have based : Changes scheduling s (s.modTd t fun td => { td with tdBasePri := p }) := .modTd _ _ _ rfl
  unfold schedPrio at run
  dsimp only at run
  split at run
  · exact Option.some.inj run ▸ based
  · exact based.trans (schedThreadPriority_changes run)

theorem schedLendUserPrio_changes {p : Nat} (run : schedLendUserPrio s t p = some s') : Changes scheduling s s' := by
  have lent : Changes scheduling s
      (s.modTd t fun td => { td with tdLendUserPri := p, tdUserPri := min p td.tdBaseUserPri }) := .modTd _ _ _ rfl
  unfold schedLendUserPrio at run
  dsimp only at run
  split at run
  · exact lent.trans (schedPrio_changes run)
  · split at run
    · exact Option.some.inj run ▸ lent.trans (reschedThread_scheduling ..)
    · exact Option.some.inj run ▸ lent

theorem schedUserPrio_changes (s : State) (t : Tid) (p : Nat) : Changes settling s (schedUserPrio s t p) := by
  have based : Changes settling s (s.modTd t fun td => { td with tdBaseUserPri := p }) := .modTd _ _ _ rfl
  exact .ite based (based.trans (.modTd _ _ _ rfl))

/-- Back in user mode a thread runs at its user priority again; no thread is asked. -/
theorem schedUserret_changes (run : schedUserret s t = some s') : Changes settling s s' := by
  obtain ⟨_, same⟩ := Option.ite_none_left_eq_some.mp run
  refine Option.some.inj same ▸ .modTd _ _ _ ?_
  split <;> rfl

/-- The shares of a group, and the weights of the entities above it. -/
theorem setShares_changes (s : State) (g : Gid) (shares : Nat) :
    Changes settling s (pssSchedGroupSetShares s g shares).2 := by
  unfold pssSchedGroupSetShares
  split
  · exact .refl s
  · have first : Changes settling s
        (if shares = 0 then s.modGrp g fun sg => { sg with shares := nice0Weight } else s) :=
      .ite (.modGrp _ _ _ rfl) (.refl s)
    dsimp only
    generalize (if shares = 0 then s.modGrp g fun sg => { sg with shares := nice0Weight } else s) = a at first ⊢
    generalize (if shares = 0 then shares else clampShares shares) = kept
    split
    · exact first
    · exact (first.trans (.modGrp _ _ _ rfl)).trans ((updateSharesWalk_changes ..).mono weighing_settling)

/-- The child is placed behind its parent before anybody runs. -/
theorem pssForkPlace_changes (s : State) (p c : Tid) : Changes settling s (pssForkPlace s p c) := by
  have clock := (updateRqClock_changes s).mono ticking_settling
  have charged := clock.trans ((updateCurr_changes _ (s.ent (.thread p)).sfq).mono charging_settling)
  exact (charged.trans (.modEnt _ _ _ rfl)).trans ((placeEntityInitial_changes ..).mono (spending_charging.trans charging_settling))

/-- If the child runs first the two change places, and the parent is asked. -/
theorem pssForkThread_changes (s : State) (p c : Tid) : Changes scheduling s (pssForkThread s p c) := by
  have placed := (pssForkPlace_changes s p c).mono settling_scheduling
  have swapped (s : State) : Changes scheduling s (pssForkSwap s p c) := by
    have first (v : BitVec 64) (ev : Event) : Changes scheduling s
        ((s.modEnt (.thread p) fun se => { se with vruntime := v }).emit ev) := .trans (.modEnt _ _ _ rfl) (.emit _ _ rfl)
    exact ((first ..).trans (.modEnt _ _ _ rfl)).trans (reschedThread_scheduling ..)
  have chosen : Changes scheduling s
      (if forkSwaps (pssForkPlace s p c) p c then pssForkSwap (pssForkPlace s p c) p c else pssForkPlace s p c) :=
    .ite (placed.trans (swapped _)) placed
  exact (chosen.trans (.modEnt _ _ _ rfl)).trans (.emit _ _ rfl)

/-- A fork makes a thread, and perhaps a process, and then places it. -/
theorem fork_changes (s : State) (p : Tid) (newProc : Bool) (stale : SchedEntity) :
    Changes forking s (fork s p newProc stale) := by
  have alloc : Changes forking s (forkAlloc s p newProc) := by cases newProc <;> rfl
  have init (s : State) (c : Tid) : Changes forking s (schedForkInit s p c stale) := by
    have made (load : LoadWeight) : Changes forking s (s.modEnt (.thread c) fun _ =>
        { stale with
          onSfq := false, onRunq := false, joined := false, initial := true, load := load
          myQ := none }) := .modEnt _ _ _ rfl
    exact (((made _).trans (.modTd _ _ _ rfl)).trans (.modGrp _ _ _ rfl)).trans (.modEnt _ _ _ rfl)
  have begun := alloc.trans (init _ s.nthreads)
  unfold fork schedForkThread
  dsimp only
  split
  · exact begun.trans ((pssForkThread_changes ..).mono scheduling_forking)
  · exact begun.trans (.emit _ _ rfl)

/-- The operations that put no thread on a queue, make and end nothing and move no thread. -/
def Op.quiet : Op → Bool
  | .switch _ | .sleep _ | .tick | .prio .. | .lendPrio .. | .unlendPrio .. | .userPrio .. | .lendUserPrio .. | .userret
  | .setShares .. => true
  | _ => false

/-- The operations that put nothing on `rq->leaf_sfq_list`. -/
theorem step_quiet {op : Op} (quiet : op.quiet) (run : step s op = some s') : Changes scheduling s s' := by
  obtain ⟨_, run⟩ := Option.ite_none_right_eq_some.mp run
  cases op with
  | switch flags => exact schedSwitch_changes run
  | sleep flags => exact .trans (.modTd _ _ _ rfl) (schedSwitch_changes run)
  | tick => exact Option.some.inj run ▸ schedTick_changes s
  | prio t p => exact schedPrio_changes run
  | lendPrio t p => exact schedLendPrio_changes run
  | unlendPrio t p => exact schedUnlendPrio_changes run
  | userPrio t p => exact Option.some.inj run ▸ (schedUserPrio_changes s t p).mono settling_scheduling
  | lendUserPrio t p => exact schedLendUserPrio_changes run
  | userret => exact (schedUserret_changes run).mono settling_scheduling
  | setShares g shares => exact Option.some.inj run ▸ (setShares_changes s g shares).mono settling_scheduling
  | _ => cases quiet

/-- The operations that leave the groups, and the threads in them, as they are. -/
def Op.modest : Op → Bool
  | .throw | .fork .. | .sysctl _ | .groupMove .. | .groupCreate .. | .exitThread _ => false
  | _ => true

/-- The operations that make and end nothing and move nobody. -/
theorem step_modest {op : Op} (modest : op.modest) (run : step s op = some s') : Changes (scheduling ⊔ listing) s s' := by
  by_cases quiet : op.quiet
  · exact (step_quiet quiet run).mono le_sup_left
  · obtain ⟨_, run⟩ := Option.ite_none_right_eq_some.mp run
    cases op with
    | add t => exact .trans (.modTd _ _ _ rfl) (schedAdd_changes run)
    | schedClass t priClass => exact schedClass_changes run
    | nice p n => exact schedNice_changes run
    | throw | fork | sysctl | groupMove | groupCreate | exitThread => cases modest
    | _ => exact absurd rfl quiet

end operations
end SfqSched
