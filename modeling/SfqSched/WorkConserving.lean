import SfqSched.OpFrame
import SfqSched.Progress

namespace SfqSched
open State Function

/-- No thread is forgotten that was asked to give up the CPU. -/
structure Asks (s s' : State) : Prop where
  keeps : ∀ t, s.requests t → s'.requests t

namespace Asks
variable {s s' s'' : State}

theorem refl (s : State) : Asks s s := ⟨fun _ => id⟩

theorem trans (first : Asks s s') (second : Asks s' s'') : Asks s s'' :=
  ⟨fun t asked => second.keeps t (first.keeps t asked)⟩

/-- Where all requests are as they were, none is withdrawn. -/
theorem of_eq (same : s'.requests = s.requests) : Asks s s' where
  keeps t asked := by
    rw [same]
    exact asked

/-- A store to a thread that leaves its request. -/
theorem modTd {t : Tid} {f : Thread → Thread} (same : (f (s.td t)).needResched = (s.td t).needResched) :
    Asks s (s.modTd t f) := .of_eq (requests_modTd s t f same)

end Asks

section asks
variable {s s' : State} {t : Tid} {prio : Nat}

end asks

section others
variable {s s' : State} {t : Tid}

end others

/-- The seat on the CPU is that of `curthread`. -/
theorem State.onCpu_iff (s : State) (t : Tid) : (s.seat t).onCpu ↔ s.curthread = t := by
  change (s.curthread == t) = true ↔ _
  exact beq_iff_eq

/-- Whoever waits while the idle thread runs has had it asked to give up the CPU. -/
structure Prompt (s : State) : Prop where
  home : (s.seat 1).cls = .idle
  asked : (s.seat 1).onCpu → (∃ t, (s.seat t).tdState = .runq ∧ (s.seat t).cls ≠ .idle) → s.requests 1

namespace Prompt
variable {s s' : State} {t : Tid}

/-- Where no seat has changed and the idle thread's request stands, it is still prompt. -/
theorem same (prompt : Prompt s) (look : s'.seat = s.seat)
    (asks : (s.seat 1).onCpu → s.requests 1 → s'.requests 1) : Prompt s' where
  home := by
    rw [look]
    exact prompt.home
  asked onCpu waits := by
    rw [look] at onCpu waits
    exact asks onCpu (prompt.asked onCpu waits)

/-- The same for operations that are known by the roster. -/
theorem roster (prompt : Prompt s) (same : s'.view.roster = s.view.roster)
    (asks : (s.seat 1).onCpu → s.requests 1 → s'.requests 1) : Prompt s' where
  home := (congrFun (congrArg Roster.cls same) 1).trans prompt.home
  asked onCpu waits := by
    have current : s'.curthread = s.curthread := congrArg Roster.curthread same
    have onCpu' : (s.seat 1).onCpu := (s.onCpu_iff 1).mpr (current.symm.trans ((s'.onCpu_iff 1).mp onCpu))
    obtain ⟨t, runq, cls⟩ := waits
    have runq' : (s.seat t).tdState = .runq := (congrFun (congrArg Roster.tdState same) t).symm.trans runq
    have cls' : (s'.seat t).cls = (s.seat t).cls := congrFun (congrArg Roster.cls same) t
    exact asks onCpu' (prompt.asked onCpu' ⟨t, runq', cls' ▸ cls⟩)

/-- What happens to another thread brings no new waiter, if that thread does not run. -/
theorem apart (prompt : Prompt s) (other : t ≠ 1) (busy : (s.seat t).cls ≠ .idle)
    (away : (s.seat t).tdState = .running → ¬(s.seat 1).onCpu) (others : ∀ u, u ≠ t → s'.seat u = s.seat u)
    (rests : (s.td t).tdState ≠ .runq → (s.td t).tdState ≠ .running → (s'.td t).tdState = (s.td t).tdState)
    (asks : s.requests 1 → s'.requests 1) : Prompt s' where
  home := by
    rw [others 1 (Ne.symm other)]
    exact prompt.home
  asked onCpu waits := by
    rw [others 1 (Ne.symm other)] at onCpu
    obtain ⟨u, runq, cls⟩ := waits
    refine asks (prompt.asked onCpu ?_)
    by_cases here : u = t
    · subst here
      by_cases queued : (s.seat u).tdState = .runq
      · exact ⟨u, queued, busy⟩
      · have still : (s'.seat u).tdState = (s.seat u).tdState := rests queued fun running => away running onCpu
        exact absurd (still.symm.trans runq) queued
    · rw [others u here] at runq cls
      exact ⟨u, runq, cls⟩

end Prompt

section choose
variable {C : Conds} {s s' : State}

/-- To choose changes no class. -/
theorem chooseThread_cls (inv : Inv C s [] none) (run : chooseThread s = some s') : s'.view.cls = s.view.cls := by
  have inv₁ : Inv C (s.emit .choose) [] none := inv.of_bones rfl
  have started (a b : State) (t : Tid) (inv : Inv C a [] none)
      (run : classActivateThread (a.td t).cls a t = some b) :
      ({ setTdState b t .running with curthread := t } : State).view.cls = a.view.cls := by
    have first := (classActivateThread_reaches inv run).1
    have cls : b.view.cls = a.view.cls := congrArg Roster.cls first.roster
    have second : (setTdState b t .running).view.cls = b.view.cls := by simp
    exact second.trans cls
  obtain ⟨⟨t, a⟩, chosen, rfl⟩ := Option.map_eq_some_iff.mp run
  unfold schedChoose at chosen
  dsimp only at chosen
  split at chosen
  · obtain ⟨b, act, same⟩ := Option.map_eq_some_iff.mp chosen
    cases same
    exact started (s.emit .choose) _ _ inv₁ act
  · obtain ⟨⟨picked, b⟩, walk, chosen⟩ := Option.bind_eq_some_iff.mp chosen
    obtain ⟨c, act, same⟩ := Option.map_eq_some_iff.mp chosen
    cases same
    have reaches := (pssPickNextThread_reaches inv₁ walk).1
    have cls : b.view.cls = s.view.cls := congrArg Roster.cls reaches.roster
    exact (started _ _ _ reaches.inv act).trans cls

/-- The idle thread is chosen only when both run queues are empty. -/
theorem chooseThread_idle (choosable : Choosable C s) (positive : C.positive) (run : chooseThread s = some s')
    (idle : s'.curthread = 1) : s'.rq.realtime = [] ∧ (s'.sfq 0).nrRunning = 0 := by
  have choosable₁ := choosable.choose
  have roster := choosable₁.stands.roster
  have one : s.idlethread = 1 := roster.idle.1
  have home : (s.emit .choose).view.roster.cls 1 = .idle := by
    rw [← one]
    exact choosable.home
  have off : (s.emit .choose).view.joined (.thread 1) = false := (roster.live 1 roster.idle.2.1 roster.idle.2.2.1).idle home
  obtain ⟨⟨t, a⟩, chosen, rfl⟩ := Option.map_eq_some_iff.mp run
  have first : t = 1 := idle
  subst first
  unfold schedChoose at chosen
  dsimp only at chosen
  split at chosen
  · rename_i u found
    obtain ⟨b, _, same⟩ := Option.map_eq_some_iff.mp chosen
    cases same
    have onRunq := choosable₁.stands.inv.core.realtime 1 (runqChoose_mem found)
    have joined := (choosable₁.stands.inv.core.onRunq _ onRunq).1
    exact Bool.noConfusion (off.symm.trans joined)
  · rename_i none_there
    obtain ⟨⟨picked, b⟩, walk, chosen⟩ := Option.bind_eq_some_iff.mp chosen
    obtain ⟨c, act, same⟩ := Option.map_eq_some_iff.mp chosen
    rcases pssPickNextThread_cases choosable₁ positive with ⟨empty, pick⟩ | ⟨t, e, pick, _, _, joined, _⟩
    · cases pick.symm.trans walk
      rw [Option.getD_none, show ((s.emit .choose).td (s.emit .choose).idlethread).cls = .idle from choosable₁.home] at act
      cases act
      have last := (Prod.mk.inj same).2
      subst last
      exact ⟨runqChoose_none none_there, empty⟩
    · cases pick.symm.trans walk
      cases same
      exact Bool.noConfusion (off.symm.trans joined)

/-- Where both run queues are empty nobody waits. -/
theorem nobody_waits (settled : Settled C s) (seated : Seated s) (positive : C.positive) (listed : s.rq.realtime = [])
    (empty : (s.sfq 0).nrRunning = 0) (t : Tid) (other : (s.seat t).cls ≠ .idle) : (s.seat t).tdState ≠ .runq := by
  intro runq
  have fits := seated.fits t
  cases cls : (s.seat t).cls with
  | idle => exact other cls
  | pss =>
    have joined : s.view.joined (.thread t) := (fits.joined other).mpr (.inl runq)
    have inv := settled.stands.inv
    have busy := inv.core.root_busy (inv.tight positive) _ (.thread t) (Nat.le_refl _) joined cls
    exact absurd empty (Nat.ne_of_gt busy)
  | realtime =>
    have onRunq : (s.seat t).onRunq := (fits.waiting cls).mpr runq
    rcases fits.listed with ⟨_, i, slots⟩ | ⟨out, _⟩
    · have none_there : (s.seat t).slots = [] := by
        unfold State.seat
        rw [listed]
        rfl
      rw [none_there] at slots
      cases slots
    · exact Bool.noConfusion (out.symm.trans onRunq)

/-- After a choice the idle thread runs only if there was nobody else to choose. -/
theorem Prompt.chosen {b : State} (prompt : Prompt s) (choosable : Choosable C b) (cls : b.view.cls = s.view.cls)
    (settled : Settled C s') (seated : Seated s') (positive : C.positive) (run : chooseThread b = some s') : Prompt s' where
  home := by
    have same := (chooseThread_cls choosable.stands.inv run).trans cls
    exact (congrFun same 1).trans prompt.home
  asked onCpu waits := by
    have idle : s'.curthread = 1 := (s'.onCpu_iff 1).mp onCpu
    obtain ⟨listed, empty⟩ := chooseThread_idle choosable positive run idle
    obtain ⟨t, runq, other⟩ := waits
    exact absurd runq (nobody_waits settled seated positive listed empty t other)

end choose

section step
variable {C : Conds} {s s' : State} {t : Tid}

end step

section runs
variable {k : Kernel} {tun : Tunables} {s : State}

end runs

-- a thread as low as the idle thread is queued without a word
example : (run plainKernel {} [.fork 0 false {}, .prio 2 255, .sleep 0, .add 2]).map (fun s =>
    (s.curthread == s.idlethread, (s.td 2).tdState, (s.td s.curthread).needResched)) = some (true, .runq, false) := by
  decide +kernel

end SfqSched
