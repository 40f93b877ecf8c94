import SfqSched.NiceSteps

namespace SfqSched
open State Function

section move
variable {C : Conds} {s s' b : State} {L : List EntId} {t : Tid} {g : Gid}

/-- The store of `sched_group_move`. -/
def storeGroup (s : State) (t : Tid) (g : Gid) : State := s.modTd t fun td => { td with group := g }

/-- What `sched_group_move` does to a thread between its queues. -/
def moveThread (s : State) (t : Tid) (g : Gid) (onRq : Bool) : State :=
  if ((storeGroup s t g).td t).cls = .pss then pssSchedGroupMove (storeGroup s t g) t onRq
  else setThreadRq (storeGroup s t g) t

theorem storeGroup_view (s : State) (t : Tid) (g : Gid) :
    (storeGroup s t g).view = { s.view with tdGroup := update s.view.tdGroup t g } := by
  unfold storeGroup
  rw [view_modTd]
  simp

theorem storeGroup_inv (inv : Inv C s L none) (inside : g < s.view.ngroups) : Inv C (storeGroup s t g) L none := by
  have hier : (storeGroup s t g).view.Hier := by
    rw [storeGroup_view]
    refine { inv.core.hier with tdGroup := fun u => ?_ }
    by_cases same : u = t
    · simpa [same] using inside
    · simpa [same] using inv.core.hier.tdGroup u
  refine ⟨?_, fun positive => ?_, ?_⟩
  · rw [storeGroup_view] at hier ⊢
    exact { inv.core with hier := hier }
  · rw [storeGroup_view]
    exact { inv.tight positive with }
  · rw [storeGroup_view]
    exact inv.filled

theorem storeGroup_quiet (s : State) (t : Tid) (g : Gid) : Quiet s (storeGroup s t g) := by
  have steady : Steady s (storeGroup s t g) := by
    refine .modTd _ _ _ ?_ ?_ ?_ <;> rfl
  refine ⟨books_modTd .., steady, ?_, ?_, ?_, ?_, ?_, ?_, ?_, ?_, ?_⟩ <;> rw [storeGroup_view] <;>
    simp [View.seated, View.absolute, View.resting]

theorem setThreadRq_view (s : State) (t : Tid) :
    (setThreadRq s t).view =
      { s.view with
        parent := update s.view.parent (.thread t) (s.view.groupSe (s.view.tdGroup t))
        sfq := update s.view.sfq (.thread t) (s.view.groupSfq (s.view.tdGroup t)) } := by
  unfold setThreadRq
  rw [view_modEnt]
  simp

theorem moveThread_view (hier : s.view.Hier) (inside : g < s.view.ngroups) (onRq : Bool) :
    (moveThread s t g onRq).view = s.view.place t g := by
  have look {a : State} (same : a.view = (storeGroup s t g).view) : (setThreadRq a t).view = s.view.place t g := by
    rw [setThreadRq_view, same, storeGroup_view]
    simp only [update_self, hier.groupSe g inside, hier.groupSfq g inside]
    rfl
  unfold moveThread pssSchedGroupMove
  dsimp only
  split
  · split
    · rw [addVtime_view]
      exact look (subVtime_view ..)
    · exact look rfl
  · exact look rfl

/-- Neither the sums nor the order of the queues show a thread outside `pss_class`. -/
theorem setThreadRq_quiet (apart : Detached s.view t) (other : s.view.cls t ≠ .pss) : Quiet s (setThreadRq s t) := by
  have steady : Steady s (setThreadRq s t) := by
    unfold setThreadRq
    exact .modEnt _ _ _ (fun _ _ _ => rfl) rfl
  refine ⟨?_, steady, ?_, ?_, ?_, ?_, ?_, ?_, ?_, ?_, ?_⟩
  · unfold setThreadRq
    rw [books_modEnt]
    simp
  all_goals rw [setThreadRq_view]
  · intro _
    rfl
  · intro _
    exact Iff.rfl
  · intro e seen
    refine update_of_ne ?_ ..
    rintro rfl
    rcases seen with seated | ⟨q, current⟩
    · exact other seated.2
    · exact apart.away q current
  · intro u _
    refine ⟨Iff.rfl, fun absolute => update_of_ne ?_ ..⟩
    rintro ⟨⟩
    exact other absolute.1

theorem moveThread_path (inv : Inv C s L none) (apart : Detached s.view t) (inside : g < s.view.ngroups) {onRq : Bool}
    (form : s.view.cls t = .pss → (onRq = false ↔ s.view.resting t)) : Path C s (moveThread s t g onRq) := by
  have first := Path.quiet inv (storeGroup_quiet s t g)
  have inv' : Inv C (storeGroup s t g) L none := storeGroup_inv inv inside
  have apart' : Detached (storeGroup s t g).view t := apart.congr rfl (by rw [storeGroup_view]) rfl rfl
  have cls : (storeGroup s t g).view.cls = s.view.cls := by rw [storeGroup_view]
  have state : (storeGroup s t g).view.tdState = s.view.tdState := by rw [storeGroup_view]
  refine first.trans ?_
  unfold moveThread
  split
  · rename_i pss
    have pss' : (storeGroup s t g).view.cls t = .pss := pss
    refine .one inv' (.move t onRq rfl apart' pss' ?_)
    unfold View.resting
    rw [state]
    exact form ((congrFun cls t).symm.trans pss')
  · rename_i other
    exact .quiet inv' (setThreadRq_quiet apart' other)

theorem moveThread_inv (inv : Inv C s L none) (apart : Detached s.view t) (inside : g < s.view.ngroups) {onRq : Bool} :
    Inv C (moveThread s t g onRq) L none := by
  have view := moveThread_view (t := t) inv.core.hier inside onRq
  refine ⟨?_, fun positive => ?_, ?_⟩
  · rw [view]
    exact inv.core.place apart inside
  · rw [view]
    exact (inv.tight positive).place g
  · rw [view]
    exact inv.filled

/-- A live thread is taken off, moved to another group and put on again. -/
theorem regroup_reached {a c d : State} {onRq : Bool} (stands : Stands C s (some s.curthread))
    (inside : t < s.view.nthreads) (live : s.view.exited t = false) (below : g < s.view.ngroups)
    (form : onRq = false ↔ s.view.resting t)
    (deq : (if s.view.tdState t = .runq ∨ s.view.tdState t = .running then dequeueThread s t 0 else some s) = some a)
    (put : (if s.view.tdState t = .running then putPrevThread a t 0 else some a) = some b)
    (enq : (if s.view.tdState t = .runq ∨ s.view.tdState t = .running
      then enqueueThread (moveThread b t g onRq) t 0 else some (moveThread b t g onRq)) = some c)
    (act : (if s.view.tdState t = .running then (activateThread c t).map fun s => setTdState s t .running
      else some c) = some d) : Reached C s d := by
  have off := takeOff_reaches stands Clocks.tick inside live deq put
  obtain ⟨apart, busy⟩ := takenOff_detached stands inside live off
  obtain ⟨_, _, state⟩ := stands.roster.takeOff inside live
  have ngroups : b.view.ngroups = s.view.ngroups := congrArg View.Frame.ngroups off.frame
  have below' : g < b.view.ngroups := ngroups ▸ below
  have form' (pss : b.view.cls t = .pss) : onRq = false ↔ b.view.resting t := by
    have same : b.view.cls t = s.view.cls t :=
      (congrFun (congrArg Roster.cls off.roster) t).trans (Roster.takeOff_self s.view.roster t).1
    have other : s.view.roster.cls t ≠ .idle := fun idle => by
      have idle' : b.view.cls t = .idle := same.trans idle
      rw [pss] at idle'
      cases idle'
    have kept : b.view.tdState t = s.view.tdState t :=
      (congrFun (congrArg Roster.tdState off.roster) t).trans (state other)
    unfold View.resting
    rw [kept]
    exact form
  have path : Path C b (moveThread b t g onRq) := moveThread_path off.inv apart below' form'
  have inv : Inv C (moveThread b t g onRq) _ none := moveThread_inv off.inv apart below'
  have view := moveThread_view (t := t) off.inv.core.hier below' onRq
  generalize moveThread b t g onRq = e at path inv view enq
  have parent (x : EntId) (other : x ≠ .thread t) : e.view.parent x = b.view.parent x := by
    rw [view]
    exact update_of_ne other ..
  have cls : e.view.cls = b.view.cls := by rw [view]; rfl
  have joined : e.view.joined = b.view.joined := by rw [view]; rfl
  have roster : e.view.roster = (s.view.roster.takeOff t).setClass t (s.view.roster.cls t) := by
    have same := (Roster.takeOff_self s.view.roster t).1
    rw [← same, Roster.setClass_self, ← off.roster, view]
    rfl
  have busy' : Busy e (if some s.curthread = some t then [] else currentOn s (some s.curthread)) := by
    refine busy.same joined (fun u _ => congrFun cls u) fun u chain => ?_
    refine walkup_same off.inv.core.hier inv.core.hier fun x member => parent x ?_
    rintro rfl
    rw [← chain] at member
    exact apart.away _ ((off.inv.core.curr _ _).mpr ⟨member, rfl⟩)
  have chain (offCpu : some s.curthread ≠ some t) : currentOn e (some s.curthread) = currentOn s (some s.curthread) := by
    refine (currentOn_same off.inv.core.hier inv.core.hier cls parent offCpu).trans ?_
    refine currentOn_congr (c := some s.curthread) off.frame fun u taken => ?_
    have other : u ≠ t := by
      rintro rfl
      exact offCpu taken
    exact (congrFun (congrArg Roster.cls off.roster) u).trans ((Roster.takeOff_beside s.view.roster t).cls u other)
  obtain ⟨path', stands', current, _, _⟩ := reattach stands inside live off inv busy' roster chain
    (fun idle => .inr idle) Clocks.tick enq act
  have same : d.curthread = s.curthread := current
  rw [← same] at stands'
  exact ⟨off.path.trans (path.trans path'), stands'⟩

theorem schedGroupMove_reached (stands : Stands C s (some s.curthread)) (inside : t < s.view.nthreads)
    (live : s.view.exited t = false) (below : g < s.view.ngroups) (run : schedGroupMove s t g = some s') :
    Reached C s s' := by
  unfold schedGroupMove at run
  dsimp only at run
  by_cases running : (s.td t).tdState = .running
  · simp only [running, reduceCtorEq, or_true, if_true] at run
    obtain ⟨a, deq, run⟩ := Option.bind_eq_some_iff.mp run
    obtain ⟨b, put, run⟩ := Option.bind_eq_some_iff.mp run
    obtain ⟨c, enq, act⟩ := Option.bind_eq_some_iff.mp run
    have form : true = false ↔ s.view.resting t := iff_of_false (by decide) fun rests => rests.2 running
    exact regroup_reached stands inside live below form ((if_pos (.inr running)).trans deq)
      ((if_pos running).trans put) ((if_pos (.inr running)).trans enq) ((if_pos running).trans act)
  · by_cases queued : (s.td t).tdState = .runq
    · simp only [queued, reduceCtorEq, or_false, if_true, if_false] at run
      obtain ⟨a, deq, run⟩ := Option.bind_eq_some_iff.mp run
      obtain ⟨_, ⟨⟩, run⟩ := Option.bind_eq_some_iff.mp run
      obtain ⟨c, enq, run⟩ := Option.bind_eq_some_iff.mp run
      cases run
      have form : true = false ↔ s.view.resting t := iff_of_false (by decide) fun rests => rests.1 queued
      exact regroup_reached stands inside live below form ((if_pos (.inl queued)).trans deq)
        (if_neg running) ((if_pos (.inl queued)).trans enq) (if_neg running)
    · simp only [running, queued, or_self, if_false] at run
      obtain ⟨_, ⟨⟩, run⟩ := Option.bind_eq_some_iff.mp run
      obtain ⟨_, ⟨⟩, run⟩ := Option.bind_eq_some_iff.mp run
      obtain ⟨_, ⟨⟩, run⟩ := Option.bind_eq_some_iff.mp run
      cases run
      have neither : ¬(s.view.tdState t = .runq ∨ s.view.tdState t = .running) := fun both => both.elim queued running
      have form : false = false ↔ s.view.resting t := iff_of_true rfl ⟨queued, running⟩
      exact regroup_reached stands inside live below form (if_neg neither) (if_neg running) (if_neg neither)
        (if_neg running)

theorem sysctlMoveThread_reached (stands : Stands C s (some s.curthread)) (inside : t < s.view.nthreads)
    (live : s.view.exited t = false) (below : g < s.view.ngroups) (run : sysctlMoveThread s t g = some s') :
    Reached C s s' := by
  unfold sysctlMoveThread at run
  dsimp only at run
  split at run
  · cases run
    exact ⟨.refl _, stands⟩
  · have both := (threads_unseen s (s.td t).group fun l => l.filter (· ≠ t)).trans (threads_unseen _ g fun l => l ++ [t])
    have first := (both.reaches stands.inv).reached stands
    refine first.trans (schedGroupMove_reached first.2 ?_ ?_ ?_ run)
    · rw [both.1]
      exact inside
    · rw [both.1]
      exact live
    · rw [both.1]
      exact below

end move
end SfqSched
