import SfqSched.Procs

namespace SfqSched
open State Function

theorem prioToWeight_pos : ∀ i, i < 41 → 0 < prioToWeight.getD i 0 := by decide

/-- Every nice value in range has a positive weight. -/
theorem threadLoad_pos {nice : Int} (range : prioMin ≤ nice ∧ nice ≤ prioMax) (priClass : PriClass) :
    0 < (threadLoad nice priClass).weight := by
  unfold threadLoad
  split
  · refine prioToWeight_pos _ ?_
    unfold prioMin prioMax at *
    omega
  · decide

/-- A thread of a class with queues is put back where it was taken off. -/
theorem Roster.Ok.reattached {r : Roster} {cpu : Option Nat} {t : Nat} (ok : r.Ok cpu) (inside : t < r.nthreads)
    (live : r.exited t = false) (other : r.cls t ≠ .idle) :
    ((r.takeOff t).setClass t (r.cls t)).putOn t (r.queued t) (r.tdState t = .running) = r := by
  rw [← (Roster.takeOff_self r t).1, Roster.setClass_self]
  by_cases queued : r.queued t
  · have joined : r.joined t = true := ((ok.live t inside live).joined other).mpr queued
    obtain ⟨counted, loaded⟩ := ok.counted.enough joined
    have others : r.nrRunning - 1 + 1 = r.nrRunning := Nat.sub_add_cancel counted
    have loads : ((r.detach t).attach t).nrSysrunning = r.nrSysrunning := by
      simp only [Roster.attach, Roster.detach]
      split
      · rfl
      · rename_i noLoad
        exact Nat.sub_add_cancel (loaded (by simpa using noLoad))
    have off : r.takeOff t = r.detach t := by simp only [Roster.takeOff, queued, other, ne_eq, not_false_eq_true, if_true]
    have member : update (update r.joined t false) t true = r.joined := by
      rw [update_idem, ← joined, update_eq_self]
    have back : (r.detach t).attach t = r.setState t .runq :=
      Roster.ext rfl rfl rfl member rfl rfl rfl rfl rfl rfl others loads
    have cls : (r.detach t).cls t ≠ .idle := other
    simp only [Roster.putOn, off, queued, cls, ne_eq, not_false_eq_true, and_self, if_true, back]
    split
    · rename_i running
      simp only [Roster.setState, update_idem]
      rw [← running, update_eq_self]
    · rename_i running
      have runq : r.tdState t = .runq := queued.resolve_right running
      rw [Roster.setState, ← runq, update_eq_self]
  · have running : r.tdState t ≠ .running := fun running => queued (.inr running)
    simp only [Roster.takeOff, Roster.putOn, queued, running, false_and, if_false]

section nice
variable {C : Conds} {s s' : State} {L : List EntId} {cpu : Option Tid} {t : Tid} {delta : Int}

/-- The load `set_thread_weight` stores. -/
def niceLoad (s : State) (t : Tid) : LoadWeight := threadLoad (s.proc (s.td t).proc).nice (s.td t).tdPriClass

theorem setThreadWeight_view (s : State) (t : Tid) :
    (setThreadWeight s t).view = { s.view with weight := update s.view.weight (.thread t) (niceLoad s t).weight } := by
  unfold setThreadWeight niceLoad
  rw [view_modEnt]
  simp

theorem setThreadWeight_inv (inv : Inv C s L none) (procs : Procs s) (apart : ¬s.view.seated (.thread t)) :
    Inv C (setThreadWeight s t) L none := by
  have pos : 0 < (niceLoad s t).weight := threadLoad_pos (procs.nice _) _
  refine ⟨?_, fun positive => ?_, ?_⟩
  · rw [setThreadWeight_view]
    exact inv.core.weigh apart pos
  · rw [setThreadWeight_view]
    exact (inv.tight positive).weigh apart
  · rw [setThreadWeight_view]
    exact inv.filled

theorem setThreadWeight_reaches (inv : Inv C s L none) (procs : Procs s) (apart : ¬s.view.seated (.thread t)) :
    Reaches C s (setThreadWeight s t) L s.view.roster := by
  refine ⟨.one inv (.weigh t rfl apart), setThreadWeight_inv inv procs apart, ?_, ?_⟩
  · rw [setThreadWeight_view]
    rfl
  · rw [setThreadWeight_view]
    rfl

theorem Clocks.tick : Clocks updateRqClock := fun _ => .inr rfl

/-- Every thread and every group is where it was, in the state it was in. -/
structure Kept (s s' : State) : Prop where
  roster : s'.view.roster = s.view.roster
  frame : s'.view.frame = s.view.frame

theorem Kept.trans {s'' : State} (h : Kept s s') (h' : Kept s' s'') : Kept s s'' :=
  ⟨h'.roster.trans h.roster, h'.frame.trans h.frame⟩

theorem Kept.inside (h : Kept s s') (old : t < s.view.nthreads ∧ s.view.exited t = false) :
    t < s'.view.nthreads ∧ s'.view.exited t = false := by
  have nthreads : s'.view.nthreads = s.view.nthreads := congrArg Roster.nthreads h.roster
  have exited : s'.view.exited = s.view.exited := congrArg Roster.exited h.roster
  rwa [nthreads, exited]

theorem Reaches.kept (h : Reaches C s s' L s.view.roster) : Kept s s' := ⟨h.roster, h.frame⟩

/-- A thread that was taken off gets its new weight outside the accounts. -/
theorem reweigh_off {b : State} (stands : Stands C s (some s.curthread)) (procs : Procs s)
    (inside : t < s.view.nthreads) (live : s.view.exited t = false)
    (off : Reaches C s b (if some s.curthread = some t then [] else currentOn s (some s.curthread))
      (s.view.roster.takeOff t)) :
    Reaches C b (setThreadWeight b t) (if some s.curthread = some t then [] else currentOn s (some s.curthread))
        b.view.roster ∧
      Busy (setThreadWeight b t) (if some s.curthread = some t then [] else currentOn s (some s.curthread)) ∧
      Detached b.view t := by
  obtain ⟨apart, busy⟩ := takenOff_detached stands inside live off
  have unseated : ¬b.view.seated (.thread t) := fun seated => Bool.noConfusion (apart.apart.symm.trans seated.1)
  have weighed := setThreadWeight_reaches off.inv (procs.path off.path) unseated
  refine ⟨weighed, busy.congr weighed.frame fun u _ seated => ?_, apart⟩
  rw [setThreadWeight_view]
  exact seated

/-- A live thread is taken off, weighed and put on again. -/
theorem reweigh_reached {a b c d : State} (stands : Stands C s (some s.curthread)) (procs : Procs s)
    (inside : t < s.view.nthreads) (live : s.view.exited t = false) (other : s.view.cls t ≠ .idle)
    (deq : (if s.view.tdState t = .runq ∨ s.view.tdState t = .running then dequeueThread s t 0 else some s) = some a)
    (put : (if s.view.tdState t = .running then putPrevThread a t 0 else some a) = some b)
    (enq : (if s.view.tdState t = .runq ∨ s.view.tdState t = .running
      then enqueueThread (setThreadWeight b t) t 0 else some (setThreadWeight b t)) = some c)
    (act : (if s.view.tdState t = .running then (activateThread c t).map fun s => setTdState s t .running
      else some c) = some d) :
    (Path C s b ∧ Path C (setThreadWeight b t) d) ∧ Reached C s d ∧ Kept s d := by
  have off := takeOff_reaches stands Clocks.tick inside live deq put
  obtain ⟨weighed, busy, _⟩ := reweigh_off stands procs inside live off
  have roster : (setThreadWeight b t).view.roster = (s.view.roster.takeOff t).setClass t (s.view.roster.cls t) := by
    rw [weighed.roster, off.roster]
    have same := (Roster.takeOff_self s.view.roster t).1
    rw [← same]
    exact (Roster.setClass_self ..).symm
  have chain (offCpu : some s.curthread ≠ some t) :
      currentOn (setThreadWeight b t) (some s.curthread) = currentOn s (some s.curthread) := by
    refine currentOn_congr (c := some s.curthread) (weighed.frame.trans off.frame) fun u taken => ?_
    have other : u ≠ t := by
      rintro rfl
      exact offCpu taken
    have kept : b.view.cls u = s.view.cls u :=
      (congrFun (congrArg Roster.cls off.roster) u).trans ((Roster.takeOff_beside s.view.roster t).cls u other)
    rw [setThreadWeight_view]
    exact kept
  obtain ⟨path, stands', current, frame, eq⟩ := reattach stands inside live off weighed.inv busy roster chain
    (fun idle => .inr idle) Clocks.tick enq act
  have same : d.curthread = s.curthread := current
  rw [← same] at stands'
  exact ⟨⟨off.path, path⟩, ⟨off.path.trans (weighed.path.trans path), stands'⟩, eq.trans (stands.roster.reattached inside live other),
    frame.trans (weighed.frame.trans off.frame)⟩

theorem schedNiceThread_reached (stands : Stands C s (some s.curthread)) (procs : Procs s)
    (inside : t < s.view.nthreads) (live : s.view.exited t = false) (run : schedNiceThread delta s t = some s') :
    Reached C s s' ∧ Kept s s' := by
  have resched {a : State} (wanted : Prop) [Decidable wanted] (h : Reached C s a ∧ Kept s a) :
      Reached C s (if wanted then reschedThread a a.curthread else a) ∧
        Kept s (if wanted then reschedThread a a.curthread else a) := by
    split
    · have unseen := (reschedThread_unseen a a.curthread).reaches h.1.2.inv
      exact ⟨h.1.trans (unseen.reached h.1.2), h.2.trans unseen.kept⟩
    · exact h
  by_cases pss : (s.td t).cls = .pss
  · obtain ⟨a, b, c, d, deq, put, enq, act, rfl⟩ := schedNiceThread_parts pss run
    have other : s.view.cls t ≠ .idle := fun idle => SchedClass.noConfusion (idle.symm.trans pss)
    exact resched _ (reweigh_reached stands procs inside live other deq put enq act).2
  · unfold schedNiceThread at run
    rw [if_pos pss] at run
    cases run
    have unseated : ¬s.view.seated (.thread t) := fun seated => pss seated.2
    have weighed := setThreadWeight_reaches stands.inv procs unseated
    exact ⟨weighed.reached stands, weighed.kept⟩

theorem schedNiceThreads_reached (threads : List Tid) (stands : Stands C s (some s.curthread)) (procs : Procs s)
    (inside : ∀ t ∈ threads, t < s.view.nthreads ∧ s.view.exited t = false)
    (run : threads.foldlM (schedNiceThread delta) s = some s') : Reached C s s' ∧ Kept s s' := by
  induction threads generalizing s with
  | nil =>
    cases run
    exact ⟨⟨.refl _, stands⟩, rfl, rfl⟩
  | cons t rest ih =>
    rw [List.foldlM_cons] at run
    obtain ⟨a, first, later⟩ := Option.bind_eq_some_iff.mp run
    obtain ⟨below, live⟩ := inside t (List.mem_cons_self ..)
    obtain ⟨reached, kept⟩ := schedNiceThread_reached stands procs below live first
    obtain ⟨further, kept'⟩ := ih reached.2 (procs.path reached.1) (fun u member => kept.inside (inside u
      (List.mem_cons_of_mem _ member))) later
    exact ⟨reached.trans further, kept.trans kept'⟩

/-- The store of the new nice value. -/
def storeNice (s : State) (p : Pid) (nice : Int) : State := s.modProc p fun proc => { proc with nice := nice }

theorem storeNice_reaches {p : Pid} {nice : Int} (inv : Inv C s L none) (loud : ¬C.steady)
    (range : prioMin ≤ nice ∧ nice ≤ prioMax) :
    Reaches C s (storeNice s p nice) L s.view.roster :=
  ⟨.one inv (.nice p nice range rfl loud), inv.of_bones rfl, rfl, rfl⟩

theorem schedNice_reached {p : Pid} {nice : Int} (stands : Stands C s (some s.curthread)) (procs : Procs s)
    (loud : ¬C.steady) (range : prioMin ≤ nice ∧ nice ≤ prioMax) (run : schedNice s p nice = some s') : Reached C s s' ∧ Kept s s' := by
  have store := storeNice_reaches (p := p) stands.inv loud range
  have first := store.reached stands
  obtain ⟨further, kept⟩ := schedNiceThreads_reached _ first.2 (procs.path first.1) (fun t listed => by
    obtain ⟨below, live, _⟩ := (procs.path first.1).member p t listed
    exact ⟨below, live⟩) run
  exact ⟨first.trans further, store.kept.trans kept⟩

end nice
end SfqSched
