import SfqSched.Progress
import SfqSched.WakeupSwitch

namespace SfqSched
open State Function

/-- The outgoing thread is back on its queue and no thread has the CPU. The idle thread is on no queue. -/
structure Dispatchable (s : State) : Prop extends QueueFits s [] where
  roster : s.view.roster.Ok none
  idle : s.view.joined (.thread s.view.idlethread) = false
  realtime : ∀ t, s.view.cls t = .realtime → s.view.joined (.thread t) → s.view.realtime t

section run
variable {C : Conds} {s : State}

/-- What a run leaves when the CPU is given up meets all of this. -/
theorem Choosable.dispatchable (choosable : Choosable C s) (positive : C.positive) : Dispatchable s where
  toQueueFits := choosable.queues positive
  roster := choosable.stands.roster
  idle := by
    have roster := choosable.stands.roster
    have home := choosable.home
    rw [show s.view.idlethread = 1 from roster.idle.1] at home ⊢
    exact (roster.live 1 roster.idle.2.1 roster.idle.2.2.1).idle home
  realtime t cls joined := by
    have fits := choosable.seats t
    have other : (s.seat t).cls ≠ .idle := fun idle => SchedClass.noConfusion (idle.symm.trans cls)
    have inside : t < s.view.nthreads := choosable.stands.inv.core.valid _ joined
    have off : (s.seat t).tdState ≠ .running := fun running =>
      Option.some_ne_none t ((choosable.stands.roster.live t inside (choosable.live joined)).running.mp running).symm
    have runq : (s.seat t).tdState = .runq := ((fits.joined other).mp joined).resolve_right off
    have queued : (s.seat t).onRunq := (fits.waiting cls).mpr runq
    rcases fits.listed with ⟨_, i, slots⟩ | ⟨out, _⟩
    · have there : i ∈ (s.seat t).slots := by
        rw [slots]
        exact List.mem_singleton_self i
      obtain ⟨entry, member, _⟩ := List.mem_map.mp there
      obtain ⟨listed, same⟩ := List.mem_filter.mp member
      exact ⟨entry, listed, of_decide_eq_true same⟩
    · exact Bool.noConfusion (out.symm.trans queued)

/-- In a run that marks no entity beside its queue and gives no group a share of zero, the premises of `sched_choose_total`
hold whenever the running thread has been put back to choose the next. -/
theorem switch_dispatchable {k : Kernel} {tun : Tunables} {ops : List Op} (ran : run k tun ops = some s)
    (asked : ∀ g, g ≠ 0 → Op.setShares g 0 ∉ ops)
    (kept : ∀ before t priClass after a, ops = before ++ .schedClass t priClass :: after →
      run k tun before = some a → ¬marksApart a t priClass)
    (home : (s.td s.idlethread).cls = .idle) (flags : Nat) :
    ∃ b, putPrevThread (s.modTd s.curthread fun td => { td with needResched := false, owePreempt := false })
        s.curthread flags = some b ∧ schedSwitch s s.curthread flags = chooseThread b ∧ Dispatchable b := by
  obtain ⟨b, put, chooses, choosable, _⟩ := schedSwitch_running_chooses (run_ready ran asked kept) trivial trivial home flags
  exact ⟨b, put, chooses, choosable.dispatchable trivial⟩

end run

section choose
variable {s : State}

theorem Dispatchable.live (fits : Dispatchable s) {t : Tid} (joined : s.view.joined (.thread t)) :
    s.view.exited t = false := by
  have inside : t < s.view.nthreads := fits.core.valid _ joined
  by_contra gone
  have apart := fits.roster.dead t inside (by simpa [View.roster] using gone)
  exact Bool.noConfusion (apart.symm.trans joined)

theorem Dispatchable.joined_class (fits : Dispatchable s) {t : Tid} (joined : s.view.joined (.thread t)) :
    s.view.cls t = .realtime ∨ s.view.cls t = .pss := by
  have inside : t < s.view.nthreads := fits.core.valid _ joined
  cases cls : s.view.cls t with
  | realtime => exact .inl rfl
  | pss => exact .inr rfl
  | idle =>
    have apart := (fits.roster.live t inside (fits.live joined)).idle cls
    exact Bool.noConfusion (apart.symm.trans joined)

/-- Some joined thread of a class with queues is counted. -/
theorem Dispatchable.work (fits : Dispatchable s) (busy : 0 < s.rq.nrRunning) :
    ∃ t, s.view.joined (.thread t) ∧ (s.view.cls t = .realtime ∨ s.view.cls t = .pss) := by
  obtain ⟨m, mem, count, _⟩ := fits.roster.counted
  obtain ⟨t, inside⟩ := Finset.card_pos.mp (count ▸ busy : 0 < m.card)
  have joined : s.view.joined (.thread t) := (mem t).mp inside
  exact ⟨t, joined, fits.joined_class joined⟩

/-- `sched_choose` on a busy run queue: it returns a joined thread, the descent of
`pss_pick_next_thread` reaches one if the realtime queue is empty, no assertion of the
`activate_thread` hook fails, and the thread's chain becomes current. -/
theorem sched_choose_total (fits : Dispatchable s) (busy : 0 < s.rq.nrRunning) :
    ∃ t s', schedChoose s = some (t, s') ∧ t ≠ s.idlethread ∧ s.view.joined (.thread t) ∧
      QueueFits s' (cpuChain s t) ∧ (s.view.cls t = .realtime → s'.rq.rtCurr = some (.thread t)) ∧
      (runqChoose s.rq.realtime = none →
        ∃ a, pssPickFrom (s.emit .choose) (s.ngroups + 1) 0 = some (.thread t, a)) := by
  have fits₁ : QueueFits (s.emit .choose) [] := fits.toQueueFits.congr rfl rfl rfl rfl
  cases chosen : runqChoose s.rq.realtime with
  | some t =>
    have queued : s.view.realtime t := runqChoose_mem chosen
    have joined := (fits.core.onRunq _ (fits.core.realtime t queued)).1
    obtain ⟨s', run, fits', current⟩ :=
      classActivateThread_total fits₁ joined (fits.joined_class joined) (fun _ => queued)
    refine ⟨t, s', ?_, ?_, joined, fits', current, by simp⟩
    · have same : runqChoose (s.emit .choose).rq.realtime = some t := chosen
      unfold schedChoose
      simp only [same]
      exact Option.map_eq_some_iff.mpr ⟨s', run, rfl⟩
    · rintro rfl
      exact Bool.noConfusion (fits.idle.symm.trans joined)
  | none =>
    obtain ⟨u, joined, cls⟩ := fits.work busy
    have pss : s.view.cls u = .pss := by
      refine cls.resolve_left fun rt => ?_
      obtain ⟨entry, member, _⟩ := fits.realtime u rt joined
      rw [runqChoose_none chosen] at member
      cases member
    have busy₁ := fits₁.core.root_busy fits₁.tight _ (.thread u) (Nat.le_refl _) joined pss
    obtain ⟨t, a, walk, fits₂, view, joined', cls'⟩ := pssPickFrom_total (s.ngroups + 1) fits₁ busy₁
      fits₁.core.hier.positive (by simp)
    have pick : pssPickNextThread (s.emit .choose) = some (some t, a) := by
      have busy' : ((s.emit .choose).sfq 0).nrRunning ≠ 0 := Nat.ne_of_gt busy₁
      have thread : seToTd a (.thread t) = some t := seToTd_thread fits₂.core.hier t
      have live : (a.td t).exited = false := by
        rw [view_exited, view]
        exact fits.live joined'
      unfold pssPickNextThread
      rw [if_neg busy']
      change (pssPickFrom (s.emit .choose) (s.ngroups + 1) 0).bind _ = _
      rw [walk]
      simp only [Option.bind_some, thread, live]
      rfl
    obtain ⟨s', run, fits', current⟩ :=
      classActivateThread_total (t := t) fits₂ (view ▸ joined') (.inr (view ▸ cls')) (by
        intro rt
        rw [view] at rt
        exact absurd (rt.symm.trans cls') (by simp))
    have chain : cpuChain a t = cpuChain s t :=
      currentOn_congr (c := some t) (congrArg View.frame view) fun _ _ => by rw [view]; rfl
    refine ⟨t, s', ?_, ?_, joined', chain ▸ fits', ?_, fun _ => ⟨a, walk⟩⟩
    · have same : runqChoose (s.emit .choose).rq.realtime = none := chosen
      unfold schedChoose
      simp only [same, pick, Option.bind_some, Option.getD_some]
      exact Option.map_eq_some_iff.mpr ⟨s', run, rfl⟩
    · rintro rfl
      exact Bool.noConfusion (fits.idle.symm.trans joined')
    · intro rt
      exact current (by rw [view]; exact rt)

end choose

/-- Threads run and wait in nested groups, and one that has woken late is the next candidate of its queue. -/
def nestedCandidates : List Op :=
  [.sysctl (.startDebit false), .groupCreate 0 0, .groupCreate 1 0, .prio 0 200, .fork 0 false {}, .prio 2 200,
    .groupMove 0 2, .groupMove 2 2, .fork 0 false {}, .prio 3 200, .groupMove 3 1, .add 3, .tick, .tick, .tick, .add 2]

/-- The same with a thread of the realtime class that waits. -/
def nestedRealtime : List Op := nestedCandidates ++ [.fork 0 false {}, .schedClass 4 .realtime, .add 4]

/-- What waits when the running thread has been put back: the next candidates of the root and of group `1`, and the
realtime queue. -/
def waitingAfter (ops : List Op) : Option (SchedClass × Nat × Option EntId × Option EntId × List Tid) := do
  let s ← run slowKernel {} ops
  let b ← putPrevThread (s.modTd s.curthread fun td => { td with needResched := false, owePreempt := false }) s.curthread 0
  some ((s.td s.idlethread).cls, b.rq.nrRunning, (b.sfq 0).next, (b.sfq 1).next, b.rq.realtime.map RunqEntry.tid)

theorem waitingAfter_spec {ops : List Op} {n : Nat} {outer inner : Option EntId} {realtime : List Tid}
    (waits : waitingAfter ops = some (.idle, n, outer, inner, realtime)) (asked : ∀ g, g ≠ 0 → Op.setShares g 0 ∉ ops)
    (only : ∀ t priClass, Op.schedClass t priClass ∈ ops → priClass = .realtime) :
    ∃ s b, run slowKernel {} ops = some s ∧ schedSwitch s s.curthread 0 = chooseThread b ∧ Dispatchable b ∧
      b.rq.nrRunning = n ∧ (b.sfq 0).next = outer ∧ (b.sfq 1).next = inner ∧ b.rq.realtime.map RunqEntry.tid = realtime := by
  obtain ⟨s, ran, waits⟩ := Option.bind_eq_some_iff.mp waits
  obtain ⟨b, put, waits⟩ := Option.bind_eq_some_iff.mp waits
  simp only [Option.some.injEq, Prod.mk.injEq] at waits
  obtain ⟨home, count, next₀, next₁, listed⟩ := waits
  obtain ⟨b', put', chooses, fits⟩ := switch_dispatchable ran asked (fun before t priClass after a split _ => by
    have member : Op.schedClass t priClass ∈ ops := by
      rw [split]
      simp
    rw [only t priClass member]
    simp [marksApart, getSchedClass]) home 0
  cases put.symm.trans put'
  exact ⟨s, b, ran, chooses, fits, count, next₀, next₁, listed⟩

theorem sched_choose_total_nested :
    (∃ s b t s', run slowKernel {} nestedCandidates = some s ∧ schedSwitch s s.curthread 0 = chooseThread b ∧
      (b.sfq 0).next = some (.group 1) ∧ (b.sfq 1).next = some (.thread 3) ∧ runqChoose b.rq.realtime = none ∧
      schedChoose b = some (t, s') ∧ t ≠ b.idlethread ∧ QueueFits s' (cpuChain b t) ∧
      ∃ a, pssPickFrom (b.emit .choose) (b.ngroups + 1) 0 = some (.thread t, a)) ∧
    ∃ s b t s', run slowKernel {} nestedRealtime = some s ∧ schedSwitch s s.curthread 0 = chooseThread b ∧
      (b.sfq 1).next = some (.thread 3) ∧ b.rq.realtime.map RunqEntry.tid = [4] ∧ schedChoose b = some (t, s') ∧
      t ≠ b.idlethread ∧ QueueFits s' (cpuChain b t) := by
  have waits : waitingAfter nestedCandidates = some (.idle, 3, some (.group 1), some (.thread 3), []) := by decide +kernel
  have waits' : waitingAfter nestedRealtime = some (.idle, 4, some (.group 1), some (.thread 3), [4]) := by decide +kernel
  constructor
  · obtain ⟨s, b, ran, chooses, fits, count, next₀, next₁, listed⟩ := waitingAfter_spec waits (by simp [nestedCandidates])
      (by simp [nestedCandidates])
    obtain ⟨t, s', chosen, other, _, done, _, descent⟩ := sched_choose_total fits (count ▸ by decide)
    have empty : runqChoose b.rq.realtime = none := by
      rw [List.map_eq_nil_iff.mp listed]
      rfl
    exact ⟨s, b, t, s', ran, chooses, next₀, next₁, empty, chosen, other, done, descent empty⟩
  · obtain ⟨s, b, ran, chooses, fits, count, _, next₁, listed⟩ := waitingAfter_spec waits'
      (by simp [nestedRealtime, nestedCandidates]) (by simp [nestedRealtime, nestedCandidates])
    obtain ⟨t, s', chosen, other, _, done, _⟩ := sched_choose_total fits (count ▸ by decide)
    exact ⟨s, b, t, s', ran, chooses, next₁, listed, chosen, other, done⟩

end SfqSched
