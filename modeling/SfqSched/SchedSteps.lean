import SfqSched.ClassSteps

namespace SfqSched
open State Function

/-- The entities the queues have as their current ones while `cpu` is on the CPU. -/
def currentOn (s : State) : Option Tid → List EntId
  | none => []
  | some t => cpuChain s t

/-- What holds between the parts of operations that move whole threads. -/
structure Stands (C : Conds) (s : State) (cpu : Option Tid) : Prop where
  inv : Inv C s (currentOn s cpu) none
  roster : s.view.roster.Ok cpu

/-- The current entities, if there are any, are those above a thread in the accounts. -/
def Busy (s : State) (L : List EntId) : Prop :=
  L = [] ∨ ∃ u, L = walkup s (some (.thread u)) ∧ s.view.seated (.thread u)

section busy
variable {C : Conds} {s s' : State} {L : List EntId} {cpu : Option Tid} {t : Tid}

theorem currentOn_congr {c : Option Tid} (frame : s'.view.frame = s.view.frame)
    (cls : ∀ t, c = some t → s'.view.cls t = s.view.cls t) : currentOn s' c = currentOn s c := by
  cases c with
  | none => rfl
  | some t => simp only [currentOn, cpuChain, cls t rfl, View.chain_congr frame]

theorem Busy.charged (busy : Busy s L) (inv : Inv C s L none) (positive : C.positive) : ∀ e ∈ L, s.view.joined e := by
  rcases busy with rfl | ⟨u, rfl, seated⟩
  · simp
  · have links := inv.core.hier.chain (e := .thread u) (Nat.lt_succ_self _)
    exact fun e member => ((inv.tight positive).chain inv.core links seated e member).1

theorem Busy.time (busy : Busy s L) (inv : Inv C s L none) : TimeFits C s.view := by
  intro q e current which
  have member := ((inv.core.curr q e).mp current).1
  rcases which with positive | ⟨t, rfl⟩
  · exact busy.charged inv positive e member
  · rcases busy with rfl | ⟨u, rfl, seated⟩
    · simp at member
    · obtain ⟨rest, eq, _, _, groups⟩ := thread_chain inv.core.hier u
      rw [eq] at member
      rcases List.mem_cons.mp member with same | above
      · cases same
        exact seated.1
      · obtain ⟨g, never⟩ := groups _ above
        cases never

theorem Busy.congr (busy : Busy s L) (frame : s'.view.frame = s.view.frame)
    (seated : ∀ u, EntId.thread u ∈ L → s.view.seated (.thread u) → s'.view.seated (.thread u)) : Busy s' L := by
  rcases busy with rfl | ⟨u, rfl, there⟩
  · exact .inl rfl
  · refine .inr ⟨u, (View.chain_congr frame _).symm, seated u ?_ there⟩
    rw [show walkup s (some (.thread u)) = .thread u :: _ from rfl]
    exact List.mem_cons_self ..

theorem Stands.busy (stands : Stands C s cpu) : Busy s (currentOn s cpu) := by
  cases cpu with
  | none => exact .inl rfl
  | some t =>
    simp only [currentOn, cpuChain]
    split
    · rename_i pss
      obtain ⟨inside, live⟩ := stands.roster.current t rfl
      have fits := stands.roster.live t inside live
      have joined : s.view.joined (.thread t) :=
        (fits.joined (by simpa [View.roster] using fun idle => by simp [pss] at idle)).mpr (.inr (fits.running.mpr rfl))
      exact .inr ⟨t, rfl, joined, pss⟩
    · exact .inl rfl

theorem updateRqClock_reaches (inv : Inv C s L none) (busy : Busy s L) :
    Reaches C s (updateRqClock s) L s.view.roster :=
  ⟨.flow inv (.clock rfl (busy.time inv)), inv.of_bones rfl, rfl, rfl⟩

/-- The entity of a thread that is not on the CPU is not current. -/
theorem Stands.away (stands : Stands C s cpu) (off : cpu ≠ some t) : EntId.thread t ∉ currentOn s cpu := by
  cases cpu with
  | none => simp [currentOn]
  | some u =>
    simp only [currentOn, cpuChain]
    split
    · obtain ⟨rest, eq, _, _, groups⟩ := thread_chain stands.inv.core.hier u
      rw [eq]
      intro member
      rcases List.mem_cons.mp member with same | above
      · cases same
        exact off rfl
      · obtain ⟨g, never⟩ := groups _ above
        cases never
    · simp

end busy

/-- The clock is updated before a class hook is called, or is not. -/
def Clocks (clock : State → State) : Prop := ∀ s, clock s = s ∨ clock s = updateRqClock s

theorem Clocks.still : Clocks id := fun _ => .inl rfl

theorem Clocks.reaches {clock : State → State} (clocks : Clocks clock) {C : Conds} {s : State} {L : List EntId}
    (inv : Inv C s L none) (busy : Busy s L) :
    Reaches C s (clock s) L s.view.roster ∧ (clock s).view = s.view := by
  rcases clocks s with same | same
  · rw [same]
    exact ⟨.refl inv, rfl⟩
  · rw [same]
    exact ⟨updateRqClock_reaches inv busy, rfl⟩

section offAndOn
variable {C : Conds} {s a b : State} {cpu : Option Tid} {t : Tid} {clock : State → State} {L : List EntId}

theorem putPrevThread_apart {flags : Nat} (apart : s.view.joined (.thread t) = false) :
    putPrevThread s t flags = classPutPrevThread (s.view.cls t) s t flags := by
  simp only [putPrevThread, view_joined, apart, Bool.false_eq_true, if_false, view_cls]

/-- The dequeue of a thread that is queued or on the CPU. -/
theorem dequeue_reaches (stands : Stands C s cpu) (clocks : Clocks clock) {flags : Nat}
    (queued : s.view.cls t ≠ .idle → s.view.joined (.thread t))
    (form : s.view.cls t = .pss → forked t →
      s.view.initial (.thread t) = false ∧ (flags &&& dequeueSleep ≠ 0 ↔ s.view.resting t))
    (run : classDequeueThread (s.view.cls t) (clock s) t flags = some a) :
    Reaches C s a (currentOn s cpu) (if s.view.cls t = .idle then s.view.roster else s.view.roster.detach t) := by
  obtain ⟨first, same⟩ := clocks.reaches stands.inv stands.busy
  rw [← same] at queued form run
  have second := classDequeueThread_reaches first.inv queued (same ▸ stands.roster.counted) form run
  rw [same] at second
  exact first.trans second

/-- A thread is dequeued and, if it is on the CPU, leaves it. -/
theorem takeOff_reaches (stands : Stands C s cpu) (clocks : Clocks clock) (inside : t < s.view.nthreads)
    (live : s.view.exited t = false)
    (deq : (if s.view.tdState t = .runq ∨ s.view.tdState t = .running
      then classDequeueThread (s.view.cls t) (clock s) t 0 else some s) = some a)
    (put : (if s.view.tdState t = .running then putPrevThread a t 0 else some a) = some b) :
    Reaches C s b (if cpu = some t then [] else currentOn s cpu) (s.view.roster.takeOff t) := by
  have fits := stands.roster.live t inside live
  have first : Reaches C s a (currentOn s cpu)
      (if s.view.roster.queued t ∧ s.view.roster.cls t ≠ .idle then s.view.roster.detach t else s.view.roster) := by
    by_cases queued : s.view.tdState t = .runq ∨ s.view.tdState t = .running
    · rw [if_pos queued] at deq
      have joined (other : s.view.cls t ≠ .idle) : s.view.joined (.thread t) := (fits.joined other).mpr queued
      have reaches := dequeue_reaches stands clocks joined (fun pss isForked => ?_) deq
      · by_cases idle : s.view.cls t = .idle
        · rw [if_pos idle] at reaches
          rw [if_neg (by simp [View.roster, idle])]
          exact reaches
        · rw [if_neg idle] at reaches
          rw [if_pos ⟨queued, idle⟩]
          exact reaches
      · refine ⟨fits.started isForked (joined (by simp [pss])), ?_⟩
        simp only [View.resting, Nat.zero_and, ne_eq, not_true_eq_false, false_iff]
        tauto
    · rw [if_neg queued] at deq
      cases deq
      rw [if_neg (fun both => queued both.1)]
      exact .refl stands.inv
  have cls : a.view.cls = s.view.cls := by
    refine (congrArg Roster.cls first.roster).trans ?_
    split <;> rfl
  by_cases running : s.view.tdState t = .running
  · have onCpu : cpu = some t := fits.running.mp running
    have queued : s.view.roster.queued t := .inr running
    rw [if_pos running] at put
    rw [if_pos onCpu]
    have apart : a.view.roster.joined t = false := by
      rw [first.roster]
      split
      · simp [Roster.detach]
      · rename_i idle
        exact fits.idle (by simpa [queued] using idle)
    rw [putPrevThread_apart apart] at put
    have inv : Inv C a (cpuChain a t) none := by
      have same : cpuChain a t = currentOn s cpu := by
        rw [onCpu]
        exact currentOn_congr (c := some t) first.frame fun u _ => by rw [cls]
      rw [same]
      exact first.inv
    have second := classPutPrevThread_reaches inv put
    refine ⟨first.path.trans second.path, second.inv, ?_, second.frame.trans first.frame⟩
    rw [second.roster, cls, first.roster]
    by_cases idle : s.view.cls t = .idle
    · have idle' : s.view.roster.cls t = .idle := idle
      have running' : s.view.roster.tdState t = .running := running
      simp [Roster.takeOff, queued, idle, idle', running']
    · have other : s.view.roster.cls t ≠ .idle := idle
      simp [Roster.takeOff, queued, idle, other, Roster.putBack, Roster.detach]
  · have off : cpu ≠ some t := fun onCpu => running (fits.running.mpr onCpu)
    have running' : s.view.roster.tdState t ≠ .running := running
    rw [if_neg running] at put
    cases put
    rw [if_neg off]
    refine ⟨first.path, first.inv, ?_, first.frame⟩
    rw [first.roster]
    by_cases queued : s.view.roster.queued t <;> by_cases idle : s.view.roster.cls t = .idle <;>
      simp [Roster.takeOff, queued, idle, running']

/-- A thread comes back to a run queue and, if it was on the CPU, to that. -/
theorem putOn_reaches {queued running : Prop} [Decidable queued] [Decidable running] (inv : Inv C s L none)
    (busy : Busy s L) (clocks : Clocks clock) (inside : t < s.view.nthreads) (apart : s.view.joined (.thread t) = false)
    (form : queued → s.view.cls t = .pss → forked t → ¬s.view.absolute t) (free : running → queued ∧ L = [])
    (enq : (if queued then classEnqueueThread (s.view.cls t) (clock s) t 0 else some s) = some a)
    (act : (if running then (activateThread a t).map fun s => setTdState s t .running else some a) = some b) :
    Reaches C s b (if running then cpuChain b t else L) (s.view.roster.putOn t queued running) := by
  have first : Reaches C s a L
      (if queued ∧ s.view.roster.cls t ≠ .idle then s.view.roster.attach t else s.view.roster) := by
    by_cases queue : queued
    · rw [if_pos queue] at enq
      replace form := form queue
      obtain ⟨tick, same⟩ := clocks.reaches inv busy
      rw [← same] at enq inside apart form
      have time : TimeFits C (clock s).view := same ▸ busy.time inv
      have reaches := classEnqueueThread_reaches tick.inv time inside apart
        (fun pss isForked => iff_of_false (by simp) (form pss isForked)) enq
      rw [same] at reaches
      by_cases idle : s.view.cls t = .idle
      · rw [if_pos idle] at reaches
        rw [if_neg (by simp [View.roster, idle])]
        exact tick.trans reaches
      · rw [if_neg idle] at reaches
        rw [if_pos ⟨queue, idle⟩]
        exact tick.trans reaches
    · rw [if_neg queue] at enq
      cases enq
      rw [if_neg (fun both => queue both.1)]
      exact .refl inv
  have other (u : Tid) : a.view.cls u = s.view.cls u := by
    have same := congrArg Roster.cls first.roster
    refine congrFun (same.trans ?_) u
    split <;> rfl
  by_cases run : running
  · obtain ⟨queue, rfl⟩ := free run
    rw [if_pos run] at act
    obtain ⟨c, step, rfl⟩ := Option.map_eq_some_iff.mp act
    obtain ⟨second, joined⟩ := classActivateThread_reaches first.inv step
    have third : Reaches C c (setTdState c t .running) (cpuChain a t) (c.view.roster.setState t .running) := by
      refine setTdState_reaches second.inv ?_
      have state : c.view.roster.tdState t = .running := by
        rw [second.roster]
        simp [Roster.setState]
      have same : c.view.roster.joined = a.view.roster.joined := by rw [second.roster]; rfl
      have cls : c.view.roster.cls = a.view.roster.cls := by rw [second.roster]; rfl
      by_cases idle : a.view.cls t = .idle
      · refine .inl ?_
        rw [show c.view.cls t = a.view.cls t from congrFun cls t, idle]
        simp
      · refine .inr (.inl ?_)
        rw [show c.view.joined (.thread t) = a.view.joined (.thread t) from congrFun same t]
        exact joined idle
    have chain : cpuChain (setTdState c t .running) t = cpuChain a t := by
      have cls : (setTdState c t .running).view.roster.cls = a.view.roster.cls := by
        rw [third.roster, second.roster]
        rfl
      exact currentOn_congr (c := some t) (third.frame.trans second.frame) fun u _ => congrFun cls u
    rw [if_pos run, chain]
    refine ⟨first.path.trans (second.path.trans third.path), third.inv, ?_,
      (third.frame.trans second.frame).trans first.frame⟩
    rw [third.roster, second.roster, first.roster]
    simp only [Roster.putOn, run, queue, if_true, Roster.setState, update_idem]
  · rw [if_neg run] at act ⊢
    cases act
    refine ⟨first.path, first.inv, ?_, first.frame⟩
    rw [first.roster]
    simp only [Roster.putOn, run, if_false]

end offAndOn
end SfqSched
