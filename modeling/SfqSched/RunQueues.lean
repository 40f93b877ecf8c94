import SfqSched.SeatPriority
import Mathlib.Data.List.Induction

namespace SfqSched
open State Function

/-- The timelines agree with the flags, and every queue a thread may come to is there. -/
structure Shelved (s : State) : Prop where
  shelved : s.shelved
  own : ∀ t, (s.ent (.thread t)).sfq < s.ngroups
  house : ∀ g, (s.grp g).sfq < s.ngroups

section threads
variable {s s' : State} {t : Tid} {flags : Nat}

theorem Shelved.keeps (h : Shelved s) (keeps : Keeps s s') : Shelved s' := by
  refine ⟨keeps.shelf h.shelved, fun t => ?_, fun g => ?_⟩
  · rw [keeps.place, keeps.born]
    exact h.own t
  · rw [keeps.house, keeps.born]
    exact h.house g

/-- A thread on no timeline changes its group. -/
theorem setThreadRq_shelved (h : Shelved s) (off : (s.seat t).onSfq = false) : Shelved (setThreadRq s t) := by
  have off' : (s.ent (.thread t)).onSfq = false := off
  have once : (setThreadRq s t).shelved := by
    unfold setThreadRq
    exact Keeps.shelved_move h.shelved off' off'
  refine ⟨once, fun u => ?_, h.house⟩
  by_cases here : u = t
  · subst here
    simpa [setThreadRq, State.modEnt] using h.house _
  · simpa [setThreadRq, State.modEnt, here] using h.own u

theorem pssSchedGroupMove_shelved (h : Shelved s) (off : (s.seat t).onSfq = false) (onRq : Bool) :
    Shelved (pssSchedGroupMove s t onRq) := by
  unfold pssSchedGroupMove
  dsimp only
  split
  · have before := h.keeps (subVtime_charges (r := True) s (s.ent (.thread t)).sfq (.thread t)).toKeeps
    have off' : ((subVtime s (s.ent (.thread t)).sfq (.thread t)).seat t).onSfq = false := by rwa [subVtime_seat]
    exact (setThreadRq_shelved before off').keeps (addVtime_charges (r := True) ..).toKeeps
  · exact setThreadRq_shelved h off

theorem activateRunning_keeps (groups : Groups s)
    (run : (activateThread s t).map (fun s => setTdState s t .running) = some s') : Keeps s s' := by
  obtain ⟨a, start, rfl⟩ := Option.map_eq_some_iff.mp run
  exact ((classActivateThread_starts groups start).trans (.setTdState ..)).toKeeps

theorem schedGroupMove_shelved {g : Gid} (seated : Seated s) (h : Shelved s) (run : schedGroupMove s t g = some s') :
    Shelved s' := by
  have move (onRq : Bool) (a : State) (h : Shelved a) (off : (a.seat t).onSfq = false) :
      Shelved (if ((a.modTd t fun td => { td with group := g }).td t).cls = .pss then
        pssSchedGroupMove (a.modTd t fun td => { td with group := g }) t onRq
        else setThreadRq (a.modTd t fun td => { td with group := g }) t) := by
    have store : Shelved (a.modTd t fun td => { td with group := g }) := h.keeps (.same rfl rfl (fun _ => rfl) rfl)
    split
    · exact pssSchedGroupMove_shelved store off onRq
    · exact setThreadRq_shelved store off
  have groups (onRq : Bool) (a : State) (groups : Groups a) :
      Groups (if ((a.modTd t fun td => { td with group := g }).td t).cls = .pss then
        pssSchedGroupMove (a.modTd t fun td => { td with group := g }) t onRq
        else setThreadRq (a.modTd t fun td => { td with group := g }) t) := by
    have store : Groups (a.modTd t fun td => { td with group := g }) := ⟨groups.parent, groups.se⟩
    split
    · exact (pssSchedGroupMove_moves (r := True) ..).toWrites.groups store
    · exact (setThreadRq_moves (r := True) ..).toWrites.groups store
  unfold schedGroupMove at run
  by_cases running : (s.td t).tdState = .running
  · simp only [running, reduceCtorEq, or_true, if_true, decide_true] at run
    obtain ⟨a, left, run⟩ := Option.bind_eq_some_iff.mp run
    obtain ⟨b, put, run⟩ := Option.bind_eq_some_iff.mp run
    obtain ⟨c, back, run⟩ := Option.bind_eq_some_iff.mp run
    have charges := (dequeueThread_charges left).trans (putPrevThread_charges put)
    obtain ⟨y, out, _, _, look⟩ := detachRunning_seat seated.groups (seated.fits t).toSound left put
    have off : (b.seat t).onSfq = false := by
      rw [look, update_self]
      exact out.onSfq
    have queued := (move true b (h.keeps charges.toKeeps) off).keeps (enqueueThread_charges back).toKeeps
    refine queued.keeps (activateRunning_keeps ?_ run)
    exact (enqueueThread_charges back).toWrites.groups (groups true b (charges.toWrites.groups seated.groups))
  · by_cases queued : (s.td t).tdState = .runq
    · simp only [queued, reduceCtorEq, or_false, if_true, if_false, decide_true] at run
      obtain ⟨a, left, run⟩ := Option.bind_eq_some_iff.mp run
      obtain ⟨_, ⟨⟩, run⟩ := Option.bind_eq_some_iff.mp run
      obtain ⟨c, back, run⟩ := Option.bind_eq_some_iff.mp run
      cases run
      obtain ⟨y, step, look⟩ := dequeueThread_seat seated.groups (seated.fits t).leaf left
      have off : (a.seat t).onSfq = false := by
        rw [look, update_self]
        exact (step.out (seated.fits t).toSound).1.onSfq
      exact (move true a (h.keeps (dequeueThread_charges left).toKeeps) off).keeps (enqueueThread_charges back).toKeeps
    · simp only [running, queued, or_self, if_false, decide_false] at run
      cases run
      exact move false s h ((seated.fits t).out ⟨queued, running⟩).onSfq

theorem schedClass_keeps {priClass : PriClass} (groups : Groups s) (run : schedClass s t priClass = some s') :
    Keeps s s' := by
  have recast (a : State) (cls : SchedClass) :
      Keeps a (a.modTd t fun td => { td with tdPriClass := priClass, cls := cls }) := .same rfl rfl (fun _ => rfl) rfl
  unfold schedClass at run
  split at run
  · cases run
    exact .refl s
  · by_cases running : (s.td t).tdState = .running
    · simp only [running, reduceCtorEq, or_true, if_true] at run
      obtain ⟨a, left, run⟩ := Option.bind_eq_some_iff.mp run
      obtain ⟨b, put, run⟩ := Option.bind_eq_some_iff.mp run
      obtain ⟨c, back, run⟩ := Option.bind_eq_some_iff.mp run
      obtain ⟨e, start, run⟩ := Option.bind_eq_some_iff.mp run
      obtain ⟨d, began, rfl⟩ := Option.map_eq_some_iff.mp start
      have charges := (classDequeueThread_charges left).trans (classPutPrevThread_charges put)
      have groups' := charges.toWrites.groups groups
      have queued := (classEnqueueThread_charges back).toWrites.groups ⟨groups'.parent, groups'.se⟩
      have starts : Starts t c (setTdState d t .running) :=
        (classActivateThread_starts queued began).trans (.setTdState ..)
      exact (((charges.toKeeps.trans (recast _ _)).trans (classEnqueueThread_charges back).toKeeps).trans
        starts.toKeeps).trans (checkClassChanged_charges run).toKeeps
    · by_cases queued : (s.td t).tdState = .runq
      · simp only [queued, reduceCtorEq, or_false, if_true, if_false] at run
        obtain ⟨a, left, run⟩ := Option.bind_eq_some_iff.mp run
        obtain ⟨_, ⟨⟩, run⟩ := Option.bind_eq_some_iff.mp run
        obtain ⟨c, back, run⟩ := Option.bind_eq_some_iff.mp run
        obtain ⟨_, ⟨⟩, run⟩ := Option.bind_eq_some_iff.mp run
        exact (((classDequeueThread_charges left).toKeeps.trans (recast _ _)).trans
          (classEnqueueThread_charges back).toKeeps).trans (checkClassChanged_charges run).toKeeps
      · simp only [running, queued, or_self, if_false] at run
        exact (recast _ _).trans (checkClassChanged_charges run).toKeeps

theorem schedLendUserPrio_keeps {prio : Nat} (run : schedLendUserPrio s t prio = some s') : Keeps s s' := by
  have store (f : Thread → Thread) : Keeps s (s.modTd t f) := .same rfl rfl (fun _ => rfl) rfl
  unfold schedLendUserPrio at run
  dsimp only at run
  split at run
  · exact (store _).trans (schedPrio_charges (r := True) run).toKeeps
  · split at run
    · cases run
      exact (store _).trans (reschedThread_charges (r := True) ..).toKeeps
    · cases run
      exact store _

theorem fork_shelved {newProc : Bool} {stale : SchedEntity} (h : Shelved s) (off : (s.seat s.nthreads).onSfq = false) :
    Shelved (fork s t newProc stale) := by
  have alloc : Keeps s (forkAlloc s t newProc) := by cases newProc <;> exact .same rfl rfl (fun _ => rfl) rfl
  have alloc' := h.keeps alloc
  have blank : ((forkAlloc s t newProc).ent (.thread s.nthreads)).onSfq = false := by
    cases newProc <;> exact off
  have init : Shelved (schedForkInit (forkAlloc s t newProc) t s.nthreads stale) := by
    generalize forkAlloc s t newProc = a at alloc' blank
    let start : SchedEntity :=
      { stale with
        onSfq := false, onRunq := false, joined := false, initial := true, load := (a.ent (.thread t)).load
        myQ := none }
    have once : (a.modEnt (.thread s.nthreads) fun _ => start).shelved := Keeps.shelved_move alloc'.shelved blank rfl
    have once' : (schedForkInit a t s.nthreads stale).shelved := by
      unfold schedForkInit setThreadRq
      dsimp only
      refine Keeps.shelved_move (fun u q => once u q) ?_ ?_
      · simp [State.modEnt, State.modTd, State.modGrp]
      · simp [State.modEnt, State.modTd, State.modGrp]
    refine ⟨once', fun u => ?_, fun g => ?_⟩
    · by_cases here : u = s.nthreads
      · subst here
        have house := alloc'.house (a.td t).group
        simpa [schedForkInit, setThreadRq, State.modEnt, State.modTd, State.modGrp] using house
      · simpa [schedForkInit, setThreadRq, State.modEnt, State.modTd, State.modGrp, here] using alloc'.own u
    · by_cases here : g = (a.td t).group
      · subst here
        simpa [schedForkInit, setThreadRq, State.modEnt, State.modTd, State.modGrp] using alloc'.house _
      · simpa [schedForkInit, setThreadRq, State.modEnt, State.modTd, State.modGrp, here] using alloc'.house g
  unfold fork schedForkThread
  dsimp only
  split
  · exact init.keeps (pssForkThread_charges ..).toKeeps
  · exact init.keeps (Charges.emit (r := True) ..).toKeeps

/-- No thread is on the queue of a group that is only now created. -/
theorem schedGroupCreate_shelved {parent : Gid} {shares : Nat} (h : Shelved s) :
    Shelved (schedGroupCreate s parent shares) := by
  have born : (schedGroupCreate s parent shares).ngroups = s.ngroups + 1 := rfl
  have ent (t : Tid) : (schedGroupCreate s parent shares).ent (.thread t) = s.ent (.thread t) := by
    simp [schedGroupCreate, pssAllocSchedGroup, State.modGrp, State.modSfq, State.modEnt]
  refine ⟨fun t q => ?_, fun t => ?_, fun g => ?_⟩
  · rw [ent]
    by_cases here : q = s.ngroups
    · subst here
      have apart : (s.ent (.thread t)).sfq ≠ s.ngroups := Nat.ne_of_lt (h.own t)
      simp [schedGroupCreate, pssAllocSchedGroup, State.modGrp, State.modSfq, State.modEnt, apart, Sfq.seq]
    · simpa [schedGroupCreate, pssAllocSchedGroup, State.modGrp, State.modSfq, State.modEnt, here] using h.shelved t q
  · rw [ent, born]
    exact Nat.lt_succ_of_lt (h.own t)
  · rw [born]
    have before := Nat.lt_succ_of_lt (h.house g)
    by_cases here : g = s.ngroups
    · subst here
      by_cases upper : s.ngroups = parent
      · simp [schedGroupCreate, pssAllocSchedGroup, State.modGrp, State.modSfq, State.modEnt, upper]
      · simp [schedGroupCreate, pssAllocSchedGroup, State.modGrp, State.modSfq, State.modEnt, upper]
    · by_cases upper : g = parent
      · subst upper
        simpa [schedGroupCreate, pssAllocSchedGroup, State.modGrp, State.modSfq, State.modEnt, here] using before
      · simpa [schedGroupCreate, pssAllocSchedGroup, State.modGrp, State.modSfq, State.modEnt, here, upper] using before

end threads

section step
variable {s s' : State}

theorem step_shelved (seated : Seated s) (h : Shelved s) {op : Op} (run : step s op = some s') : Shelved s' := by
  unfold step at run
  split at run
  · rename_i enabled
    cases op
    case add t =>
      have ready : Charges True s (setTdState s t .canRun) := setTdState_charges _ _ _ (by simp)
      exact h.keeps (ready.trans (schedAdd_charges run)).toKeeps
    case switch flags => exact h.keeps (schedSwitch_writes seated.groups run).2
    case sleep flags =>
      have asleep : Charges True s (setTdState s s.curthread .inhibited) := setTdState_charges _ _ _ (by simp)
      exact h.keeps (asleep.toKeeps.trans (schedSwitch_writes (asleep.toWrites.groups seated.groups) run).2)
    case throw => exact h.keeps (schedThrow_writes seated.groups run).2
    case schedClass t priClass => exact h.keeps (schedClass_keeps seated.groups run)
    case nice p n => exact h.keeps (schedNice_charges seated.groups run).toKeeps
    case groupMove t g =>
      unfold Op.exec sysctlMoveThread at run
      dsimp only at run
      split at run
      · cases run
        exact h
      · have lists (s : State) (old : Gid) : Charges True s
            ((s.modGrp old fun sg => { sg with threads := sg.threads.filter (· ≠ t) }).modGrp g fun sg =>
              { sg with threads := sg.threads ++ [t] }) :=
          Charges.trans (.modGrp _ _ _ rfl rfl) (.modGrp _ _ _ rfl rfl)
        have first := lists s (s.td t).group
        have groups := first.toWrites.groups seated.groups
        refine schedGroupMove_shelved (seated.same ?_ groups) (h.keeps first.toKeeps) run
        rfl
    case fork t newProc stale =>
      cases run
      refine fork_shelved h ?_
      have never : (s.seat s.nthreads).born = false := by
        have same : (s.seat s.nthreads).born = Nat.blt s.nthreads s.nthreads := rfl
        rw [same, ← Bool.not_eq_true, Nat.blt_eq]
        exact Nat.lt_irrefl _
      obtain ⟨unborn, _⟩ := seated.unborn _ never
      exact ((seated.fits s.nthreads).out (by simp [unborn])).onSfq
    case exitThread t =>
      cases run
      exact h.keeps (.modGrp _ _ _ rfl)
    case tick =>
      cases run
      exact h.keeps (schedTick_charges s).toKeeps
    case prio t p => exact h.keeps (schedPrio_charges (r := True) run).toKeeps
    case lendPrio t p => exact h.keeps (schedLendPrio_charges (r := True) run).toKeeps
    case unlendPrio t p => exact h.keeps (schedUnlendPrio_charges (r := True) run).toKeeps
    case userPrio t p =>
      cases run
      refine h.keeps ?_
      unfold schedUserPrio
      dsimp only
      split <;> exact .same rfl rfl (fun _ => rfl) rfl
    case lendUserPrio t p => exact h.keeps (schedLendUserPrio_keeps run)
    case userret => exact h.keeps (schedUserret_charges (r := True) run).toKeeps
    case setShares g shares =>
      cases run
      exact h.keeps (pssSchedGroupSetShares_charges ..).toKeeps
    case groupCreate g shares =>
      cases run
      exact schedGroupCreate_shelved h
    case sysctl write =>
      obtain ⟨tun, _, rfl⟩ := Option.map_eq_some_iff.mp run
      exact h.keeps (.same rfl rfl (fun _ => rfl) rfl)
  · cases run

end step

section runs
variable {k : Kernel} {tun : Tunables} {s : State}

theorem bootMemory_out (k : Kernel) (tun : Tunables) (t : Tid) : ((bootMemory k tun).seat t).Out := by
  refine ⟨?_, ?_, ?_, ?_, rfl⟩
  all_goals
    simp only [State.seat, bootMemory]
    split_ifs <;> rfl

theorem bootMemory_rests (k : Kernel) (tun : Tunables) (t : Tid) :
    ((bootMemory k tun).seat t).tdState ≠ .runq ∧ ((bootMemory k tun).seat t).tdState ≠ .running := by
  simp only [State.seat, bootMemory]
  split_ifs <;> simp

theorem bootMemory_shelved (k : Kernel) (tun : Tunables) : Shelved (bootMemory k tun) := by
  refine ⟨fun t q => ?_, fun t => ?_, fun g => ?_⟩
  · have off : ((bootMemory k tun).ent (.thread t)).onSfq = false := (bootMemory_out k tun t).onSfq
    rw [if_neg (by simp [off])]
    rfl
  · simp only [bootMemory]
    split_ifs <;> exact Nat.one_pos
  · simp only [bootMemory]
    split_ifs <;> exact Nat.one_pos

theorem schedSetup_seated (boot : schedSetup k tun = some s) : Seated s ∧ Shelved s := by
  unfold schedSetup at boot
  obtain ⟨a, queue, start⟩ := Option.bind_eq_some_iff.mp boot
  have ready : Moves True (bootMemory k tun) (setThreadRq (setThreadWeight (bootMemory k tun) 0) 0) :=
    (setThreadWeight_charges _ 0).toMoves.trans (setThreadRq_moves _ 0)
  have look₀ : (setThreadRq (setThreadWeight (bootMemory k tun) 0) 0).seat = (bootMemory k tun).seat :=
    (setThreadRq_seat ..).trans (setThreadWeight_seat ..)
  have groups₀ := ready.toWrites.groups (bootMemory_guard k tun).groups
  have shelved₀ : Shelved (setThreadRq (setThreadWeight (bootMemory k tun) 0) 0) := by
    refine setThreadRq_shelved ((bootMemory_shelved k tun).keeps (setThreadWeight_charges (r := True) _ 0).toKeeps) ?_
    rw [setThreadWeight_seat]
    exact (bootMemory_out k tun 0).onSfq
  obtain ⟨x, fits, alike, _, _, look⟩ := attach_seat groups₀ (look₀ ▸ bootMemory_out k tun 0) queue
  have groups₁ := (enqueueThread_charges queue).toWrites.groups groups₀
  have here : a.seat 0 = x := by rw [look, update_self]
  obtain ⟨y, step, look'⟩ := classActivateThread_seat groups₁ (here ▸ fits.leaf) start
  rw [here] at step
  obtain ⟨fits', alike', running⟩ := step.fits fits
  have starts := classActivateThread_starts groups₁ start
  have seat : s.seat = update (bootMemory k tun).seat 0 y := by rw [look', look, look₀, update_idem]
  have at_zero : s.seat 0 = y := by rw [seat, update_self]
  have others (u : Tid) (other : u ≠ 0) : s.seat u = (bootMemory k tun).seat u := by rw [seat, update_of_ne other]
  refine ⟨⟨fun u => ?_, fun u => ?_, fun u => ?_, starts.writes (r := False) |>.groups groups₁⟩,
    (shelved₀.keeps (enqueueThread_charges queue).toKeeps).keeps starts.toKeeps⟩
  · by_cases first : u = 0
    · exact first ▸ at_zero ▸ fits'
    · rw [others u first]
      exact (bootMemory_out k tun u).fits (bootMemory_rests k tun u)
  · intro current
    by_cases first : u = 0
    · rw [first, at_zero]
      exact running
    · rw [others u first] at current
      exact absurd (beq_iff_eq.mp (show ((0 : Nat) == u) = true from current)) (Ne.symm first)
  · intro never
    by_cases first : u = 0
    · rw [first, at_zero, alike'.2.2.2, alike.2.2.2, look₀] at never
      cases never
    · rw [others u first] at never ⊢
      by_cases second : u = 1
      · subst second
        cases never
      · simp [State.seat, bootMemory, first, second]

theorem run_seated (ops : List Op) (ran : run k tun ops = some s) : Seated s ∧ Shelved s := by
  induction ops using List.reverseRecOn generalizing s with
  | nil =>
    obtain ⟨a, boot, same⟩ := Option.bind_eq_some_iff.mp ran
    cases same
    exact schedSetup_seated boot
  | append_singleton before op ih =>
    obtain ⟨a, boot, steps⟩ := Option.bind_eq_some_iff.mp ran
    rw [runFrom, List.foldlM_append] at steps
    obtain ⟨b, earlier, last⟩ := Option.bind_eq_some_iff.mp steps
    obtain ⟨seated, shelved⟩ := ih (Option.bind_eq_some_iff.mpr ⟨a, boot, earlier⟩)
    have step : step b op = some s := by simpa using last
    exact ⟨step_seated seated step, step_shelved seated shelved step⟩

/-- Whatever the scheduler is asked to do, its two run queues agree about every thread. -/
theorem run_queues_agree (k : Kernel) (tun : Tunables) (ops : List Op) (s : State) (ran : run k tun ops = some s)
    (t : Tid) :
    ((∃ entry ∈ s.rq.realtime, entry.tid = t) ↔ (s.ent (.thread t)).onRunq) ∧
    (s.rq.realtime.filter fun entry => entry.tid = t).length ≤ 1 ∧
    ((s.td t).cls = .pss → (s.ent (.thread t)).onRunq → .thread t ∈ (s.sfq (s.ent (.thread t)).sfq).seq) ∧
    ((s.td t).cls = .pss → ((s.td t).tdState = .runq ∨ ∃ q, .thread t ∈ (s.sfq q).seq) →
      (s.td t).tdPriority < normalPri →
      ∃ entry ∈ s.rq.realtime, entry.tid = t ∧ entry.index ≤ (s.td t).tdPriority / 4) ∧
    ((s.td t).cls = .realtime → (∀ q, .thread t ∉ (s.sfq q).seq) ∧
      ((s.ent (.thread t)).joined → (s.td t).tdState ≠ .running → ∃ entry ∈ s.rq.realtime, entry.tid = t)) := by
  obtain ⟨seated, shelved⟩ := run_seated ops ran
  have fits := seated.fits t
  have slots : (s.seat t).slots = (s.rq.realtime.filter fun entry => entry.tid = t).map RunqEntry.index := rfl
  have slot (i : Nat) (member : i ∈ (s.seat t).slots) : ∃ entry ∈ s.rq.realtime, entry.tid = t ∧ entry.index = i := by
    obtain ⟨entry, inside, index⟩ := List.mem_map.mp (slots ▸ member)
    obtain ⟨there, mine⟩ := List.mem_filter.mp inside
    exact ⟨entry, there, of_decide_eq_true mine, index⟩
  have listed : (∃ entry ∈ s.rq.realtime, entry.tid = t) ↔ (s.ent (.thread t)).onRunq := by
    constructor
    · rintro ⟨entry, there, mine⟩
      have inside : entry.index ∈ (s.seat t).slots :=
        slots ▸ List.mem_map_of_mem (List.mem_filter.mpr ⟨there, decide_eq_true mine⟩)
      rcases fits.listed with ⟨queued, _⟩ | ⟨_, none⟩
      · exact queued
      · rw [none] at inside
        cases inside
    · intro queued
      rcases fits.listed with ⟨_, i, one⟩ | ⟨off, _⟩
      · obtain ⟨entry, there, mine, _⟩ := slot i (by simp [one])
        exact ⟨entry, there, mine⟩
      · exact absurd (queued.symm.trans off) (by simp)
  have once : (s.rq.realtime.filter fun entry => entry.tid = t).length ≤ 1 := by
    have length := congrArg List.length slots
    rw [List.length_map] at length
    rw [← length]
    rcases fits.listed with ⟨_, i, one⟩ | ⟨_, none⟩
    · simp [one]
    · simp [none]
  refine ⟨listed, once, fun cls boosted => shelved.shelved.mem (fits.boosted cls boosted), fun cls queued urgent => ?_, fun cls => ?_⟩
  · have onSfq : (s.seat t).onSfq := by
      rcases queued with state | ⟨q, member⟩
      · exact (fits.queued cls).mpr state
      · by_contra off
        exact shelved.shelved.not_mem (Bool.not_eq_true _ ▸ off) q member
    obtain ⟨i, member, early⟩ := fits.urgent cls onSfq urgent
    obtain ⟨entry, there, mine, index⟩ := slot i member
    exact ⟨entry, there, mine, index ▸ early⟩
  · refine ⟨shelved.shelved.not_mem (fits.realtime cls).1, fun joined apart => ?_⟩
    have state := (fits.joined (by simp [show (s.seat t).cls = .realtime from cls])).mp joined
    have waits : (s.seat t).tdState = .runq := state.resolve_right apart
    exact listed.mpr ((fits.waiting cls).mpr waits)

end runs

/-- A thread is forked, made runnable and lent the priority 100 while it waits. -/
def boostedWaiter : List Op := [.fork 0 false {}, .add 2, .lendPrio 2 100]

theorem run_queues_agree_boosted :
    ∃ s, run plainKernel {} boostedWaiter = some s ∧ (∃ entry ∈ s.rq.realtime, entry.tid = 2) ∧
      .thread 2 ∈ (s.sfq (s.ent (.thread 2)).sfq).seq := by
  have result : (run plainKernel {} boostedWaiter).map (fun s => ((s.ent (.thread 2)).onRunq, (s.td 2).cls)) =
      some (true, .pss) := by decide +kernel
  obtain ⟨s, ran, values⟩ := Option.map_eq_some_iff.mp result
  obtain ⟨queued, cls⟩ := Prod.mk.inj values
  have agree := run_queues_agree _ _ _ s ran 2
  exact ⟨s, ran, agree.1.mpr queued, agree.2.2.1 cls queued⟩

end SfqSched
