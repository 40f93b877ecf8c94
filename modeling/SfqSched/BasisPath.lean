import SfqSched.BasisSteps
import SfqSched.Booked

namespace SfqSched
open State Function

namespace View

/-- What decides whether the vruntime of a thread is absolute, and to what. -/
def bearing (v : View) (t : Tid) : SchedClass × Bool × Bool × TdState × Nat :=
  (v.cls t, v.joined (.thread t), v.initial (.thread t), v.tdState t, v.sfq (.thread t))

theorem absolute_joined {v : View} {t : Tid} (joined : v.joined (.thread t)) (pss : v.cls t = .pss) : v.absolute t :=
  ⟨pss, .inl joined⟩

/-- The state of a joined thread says nothing about its vruntime. -/
theorem absolute_congr {v v' : View} {t : Tid} (cls : v'.cls t = v.cls t)
    (joined : v'.joined (.thread t) = v.joined (.thread t)) (initial : v'.initial (.thread t) = v.initial (.thread t))
    (tdState : v.joined (.thread t) = false → v'.tdState t = v.tdState t) : v'.absolute t ↔ v.absolute t := by
  unfold View.absolute View.resting
  rw [cls, joined, initial]
  by_cases there : v.joined (.thread t)
  · simp [there]
  · rw [tdState (by simpa using there)]

theorem reshare_bearing (v : View) (q : Nat) (t : Tid) : (v.reshare q).bearing t = v.bearing t := by
  unfold View.reshare
  split
  · rfl
  · split
    · rfl
    · unfold View.reweigh
      split <;> rfl

end View

/-- The basis agrees with what can be seen of the thread. -/
structure Basis.Fits (b : Basis) (v : View) (t : Tid) : Prop where
  known : b ≠ .unborn → forked t ∧ t < v.nthreads
  relative : b = .relative → ¬v.absolute t
  absolute : ∀ q, b = .absolute q → v.absolute t ∧ v.sfq (.thread t) = q

namespace Basis.Fits
variable {b : Basis} {v v' : View} {t : Tid} {q : Gid}

theorem of_unborn : Basis.unborn.Fits v t :=
  ⟨fun known => absurd rfl known, fun same => Basis.noConfusion same, fun _ same => Basis.noConfusion same⟩

theorem of_relative (known : forked t ∧ t < v.nthreads) (apart : ¬v.absolute t) : Basis.relative.Fits v t :=
  ⟨fun _ => known, fun _ => apart, fun _ same => Basis.noConfusion same⟩

theorem of_absolute (known : forked t ∧ t < v.nthreads) (absolute : v.absolute t) (place : v.sfq (.thread t) = q) :
    (Basis.absolute q).Fits v t :=
  ⟨fun _ => known, fun same => Basis.noConfusion same, fun _ same => ⟨absolute, place.trans (Basis.absolute.inj same)⟩⟩

theorem on_queue (fits : b.Fits v t) (absolute : v.absolute t) : b.On (v.sfq (.thread t)) := by
  cases b with
  | unborn => exact .inl rfl
  | relative => exact absurd absolute (fits.relative rfl)
  | absolute p => exact .inr (congrArg Basis.absolute (fits.absolute p rfl).2.symm)

theorem off_queue (fits : b.Fits v t) (apart : ¬v.absolute t) : b.Off := by
  cases b with
  | unborn => exact .inl rfl
  | relative => exact .inr rfl
  | absolute p => exact absurd (fits.absolute p rfl).1 apart

/-- A vruntime that stays what it is. -/
theorem still (fits : b.Fits v t) (nthreads : v'.nthreads = v.nthreads)
    (absolute : b ≠ .unborn → (v'.absolute t ↔ v.absolute t))
    (sfq : b ≠ .unborn → v.absolute t → v'.sfq (.thread t) = v.sfq (.thread t)) : b.Fits v' t := by
  refine ⟨fun known => nthreads ▸ fits.known known, fun relative there => ?_, fun q there => ?_⟩
  · exact fits.relative relative ((absolute (by simp [relative])).mp there)
  · obtain ⟨before, place⟩ := fits.absolute q there
    have known : b ≠ .unborn := by simp [there]
    exact ⟨(absolute known).mpr before, (sfq known before).trans place⟩

theorem same (fits : b.Fits v t) (nthreads : v'.nthreads = v.nthreads) (bearing : v'.bearing t = v.bearing t) :
    b.Fits v' t := by
  simp only [View.bearing, Prod.mk.injEq] at bearing
  obtain ⟨cls, joined, initial, tdState, sfq⟩ := bearing
  exact fits.still nthreads (fun _ => View.absolute_congr cls joined initial fun _ => tdState) fun _ _ => sfq

theorem added (fits : b.Fits v t) (nthreads : v'.nthreads = v.nthreads) (absolute : v'.absolute t)
    (place : v'.sfq (.thread t) = q) : (b.added q).Fits v' t := by
  cases b with
  | unborn => exact .of_unborn
  | relative => exact .of_absolute (nthreads ▸ fits.known (by simp)) absolute place
  | absolute p => exact .of_absolute (nthreads ▸ fits.known (by simp)) absolute place

theorem taken (fits : b.Fits v t) (nthreads : v'.nthreads = v.nthreads) (apart : b ≠ .unborn → ¬v'.absolute t) :
    b.taken.Fits v' t := by
  cases b with
  | unborn => exact .of_unborn
  | relative => exact .of_relative (nthreads ▸ fits.known (by simp)) (apart (by simp))
  | absolute p => exact .of_relative (nthreads ▸ fits.known (by simp)) (apart (by simp))

end Basis.Fits

/-- The vruntime of a thread is followed, on some basis that agrees with what can be seen. -/
def Followed (t : Tid) (s : State) : Prop := ∃ b : Basis, Follows t b s ∧ b.Fits s.view t

section walks
variable {C : Conds} {t : Tid} {b : Basis} {s s' : State} {flags : Nat} {q : Gid} {e : EntId} {chain : List EntId}

theorem pssPutPrevWalk_follows (h : Follows t b s) (hier : s.view.Hier) (run : pssPutPrevWalk s chain flags = some s')
    (own : .thread t ∈ chain → s.view.joined (.thread t) → b.On (s.view.sfq (.thread t))) : Follows t b s' := by
  induction chain generalizing s with
  | nil =>
    cases run
    exact h
  | cons e rest ih =>
    unfold pssPutPrevWalk at run
    split at run
    · cases run
    · rename_i a step
      have kept : a.view.joined = s.view.joined ∧ a.view.sfq = s.view.sfq := by
        rcases putPrevEntity_view hier step with ⟨_, look⟩ | ⟨_, _, _, _, look⟩ <;> rw [look] <;> exact ⟨rfl, rfl⟩
      have first : Follows t b a := by
        refine putPrevEntity_follows h hier step fun here joined => ?_
        subst here
        exact own (List.mem_cons_self ..) joined
      refine ih first (putPrevEntity_even hier step).1 run fun member joined => ?_
      rw [kept.1] at joined
      rw [kept.2]
      exact own (List.mem_cons_of_mem _ member) joined

theorem pssActivateWalk_follows (h : Follows t b s) (run : pssActivateWalk s chain = some s') : Follows t b s' := by
  induction chain generalizing s with
  | nil =>
    cases run
    exact h
  | cons se rest ih =>
    unfold pssActivateWalk at run
    split at run
    · cases run
    · rename_i step
      exact ih (activateEntity_follows h step) run

theorem pickNextEntity_follows (h : Follows t b s) (run : pickNextEntity s q = some (e, s')) : Follows t b s' := by
  obtain ⟨first, gran, a, _, look, books, _, rfl, _⟩ := pickNextEntity_spec run
  have found : Follows t b a := h.books books fun p there => look ▸ there
  exact clearCandidates_follows (found.emit _ rfl)

end walks

section steps
variable {C : Conds} {t : Tid} {b : Basis} {s s' : State} {L : List EntId} {d : Option EntId} {e : EntId} {flags : Nat}

theorem Follows.followed (h : Follows t b s') (fits : b.Fits s.view t)
    (nthreads : s'.view.nthreads = s.view.nthreads) (bearing : s'.view.bearing t = s.view.bearing t) : Followed t s' :=
  ⟨b, h, fits.same nthreads bearing⟩

/-- An enqueued thread joins, and no other is touched. -/
theorem enqueueEntity_followed {a : State} (h : Follows t b s) (hier : s.view.Hier) (fits : b.Fits a.view t)
    (nthreads : s'.view.nthreads = a.view.nthreads) (pss : e.pss s.view.cls)
    (run : enqueueEntity s (s.view.sfq e) e flags = some s')
    (other : e ≠ .thread t → s.view.bearing t = a.view.bearing t)
    (own : e = .thread t →
      (flags &&& enqueueWakeup = 0 → b.Off) ∧ (flags &&& enqueueWakeup ≠ 0 → b.On (s.view.sfq e))) :
    Followed t s' := by
  have follows := enqueueEntity_follows h hier run own
  obtain ⟨boosted, _, look⟩ := enqueueEntity_view hier run
  generalize entered : ((s.view.runnable e boosted).enter (s.view.sfq e) e).account (s.view.sfq e) e = v at look
  have bearing := View.reshare_bearing v (s.view.sfq e) t
  by_cases here : e = .thread t
  · subst here
    rw [if_pos rfl] at follows
    simp only [View.bearing, Prod.mk.injEq] at bearing
    refine ⟨_, follows, fits.added nthreads (View.absolute_joined ?_ ?_) ?_⟩
    · rw [look]
      exact update_self ..
    · rw [look]
      exact bearing.1.trans (by rw [← entered]; exact pss)
    · rw [look]
      exact bearing.2.2.2.2.trans (by rw [← entered]; rfl)
  · rw [if_neg here] at follows
    refine follows.followed fits nthreads (Eq.trans ?_ (other here))
    calc s'.view.bearing t = (v.reshare (s.view.sfq e)).bearing t := by
          rw [look]
          simp [View.bearing, View.setJoined, Ne.symm here]
      _ = v.bearing t := bearing
      _ = s.view.bearing t := by
          rw [← entered]
          simp [View.bearing, View.runnable, View.enter, View.account, here]

/-- A dequeued thread is no longer joined, and no other is touched. -/
theorem dequeueEntity_followed (inv : Inv C s L d) (h : Follows t b s) (fits : b.Fits s.view t)
    (nthreads : s'.view.nthreads = s.view.nthreads) (run : dequeueEntity s (s.view.sfq e) e flags = some s')
    (seated : s.view.seated e)
    (form : e = .thread t → b ≠ .unborn →
      s.view.initial (.thread t) = false ∧ (flags &&& dequeueSleep ≠ 0 ↔ s.view.resting t)) : Followed t s' := by
  have follows : Follows t (if e = .thread t ∧ flags &&& dequeueSleep = 0 then b.taken else b) s' := by
    refine dequeueEntity_follows h seated.1 run fun here => ?_
    subst here
    exact ⟨fits.on_queue (View.absolute_joined seated.1 seated.2), fun p there => ((inv.core.curr p _).mp there).2.symm⟩
  have look := dequeueEntity_view inv.core run seated.1
  have bearing := View.reshare_bearing
    ((((s.view.unboosted e).withdraw (s.view.sfq e) e).unaccount (s.view.sfq e) e).setJoined e false) (s.view.sfq e) t
  rw [← look] at bearing
  by_cases here : e = .thread t
  · subst here
    simp only [View.bearing, View.setJoined, update_self, Prod.mk.injEq] at bearing
    obtain ⟨cls, joined, initial, tdState, sfq⟩ := bearing
    have resting : s'.view.resting t ↔ s.view.resting t := by
      unfold View.resting
      rw [tdState]
      rfl
    by_cases sleep : flags &&& dequeueSleep = 0
    · rw [if_pos ⟨rfl, sleep⟩] at follows
      refine ⟨_, follows, fits.taken nthreads fun known absolute => ?_⟩
      rcases absolute.2 with there | ⟨_, rests⟩
      · exact Bool.noConfusion (joined.symm.trans there)
      · exact ((form rfl known).2.mpr (resting.mp rests)) sleep
    · rw [if_neg (by tauto)] at follows
      refine ⟨_, follows, fits.still nthreads (fun known => ?_) fun _ _ => sfq⟩
      obtain ⟨started, sleeps⟩ := form rfl known
      refine iff_of_true ⟨cls.trans seated.2, .inr ⟨initial.trans started, resting.mpr (sleeps.mp sleep)⟩⟩ ?_
      exact View.absolute_joined seated.1 seated.2
  · rw [if_neg (by tauto)] at follows
    refine follows.followed fits nthreads (bearing.trans ?_)
    simp [View.bearing, View.setJoined, View.unboosted, View.withdraw, View.unaccount, Ne.symm here]

/-- Running, or waiting to run, a joined thread keeps its vruntime as it is. -/
theorem Basis.Fits.dispatched (fits : b.Fits s.view t) {u : Tid} {st : TdState} (joined : s.view.joined (.thread u))
    (roster : s'.view.roster = s.view.roster.setState u st) (frame : s'.view.frame = s.view.frame) : b.Fits s'.view t := by
  refine fits.still (congrArg Roster.nthreads roster) (fun _ => View.absolute_congr (congrFun (congrArg Roster.cls roster) t)
    (congrFun (congrArg Roster.joined roster) t) (congrFun (congrArg Roster.initial roster) t) fun apart => ?_) fun _ _ =>
      congrFun (congrArg View.Frame.sfq frame) _
  have other : t ≠ u := by
    rintro rfl
    exact Bool.noConfusion (apart.symm.trans joined)
  exact (congrFun (congrArg Roster.tdState roster) t).trans (update_of_ne other ..)

theorem Flow.followed (inv : Inv C s L d) (step : Flow C s s') (live : t < s.view.nthreads → s.view.exited t = false)
    (h : Followed t s) : Followed t s' := by
  obtain ⟨b, h, fits⟩ := h
  have core := inv.core
  have hier := core.hier
  have nthreads : s'.view.nthreads = s.view.nthreads := (step.steady inv).nthreads
  have current {q : Gid} (there : s.view.curr q = some (.thread t)) : s.view.sfq (.thread t) = q :=
    ((core.curr q _).mp there).2
  have timed (time : TimeFits C s.view) (q : Gid) (there : s.view.curr q = some (.thread t)) : b.On q := by
    have joined := time q _ there (.inr ⟨t, rfl⟩)
    have based := fits.on_queue (View.absolute_joined joined (core.currPss q _ there))
    rwa [current there] at based
  cases step with
  | quiet same =>
    have alike (known : b ≠ .unborn) := same.absolute t (live (fits.known known).2)
    exact ⟨b, h.books same.books fun q there => same.curr ▸ there,
      fits.still nthreads (fun known => (alike known).1) fun known => (alike known).2⟩
  | clock run time =>
    rw [run]
    exact (h.clock (timed time)).followed fits rfl rfl
  | charge q run =>
    rw [run]
    exact (h.charge q).followed fits (by rw [updateCurr_view]) (by rw [updateCurr_view])
  | reshare q inside run =>
    rw [run] at nthreads ⊢
    exact (updateSfqShares_follows h q).followed fits nthreads (by rw [updateSfqShares_view, View.reshare_bearing])
  | enqueue e flags run enters form =>
    refine enqueueEntity_followed h hier fits nthreads enters.pss run (fun _ => rfl) fun here => ?_
    subst here
    by_cases known : b = .unborn
    · exact ⟨fun _ => .inl known, fun _ => .inl known⟩
    · have absolute := form t rfl (fits.known known).1
      exact ⟨fun none => fits.off_queue fun there => absolute.mpr there none, fun some => fits.on_queue (absolute.mp some)⟩
  | start u flags initial run time enters form =>
    have look : (s.modEnt (.thread u) fun se => { se with initial := false }).view =
        { s.view with initial := update s.view.initial (.thread u) false } := by
      rw [view_modEnt]
      simp
    have sfq : (updateRqClock (s.modEnt (.thread u) fun se => { se with initial := false })).view.sfq = s.view.sfq := by
      rw [updateRqClock_view, look]
    have apart : s.view.joined (.thread u) = false := by
      have before := (enqueueEntity_parts run).1
      rwa [updateRqClock_view, look] at before
    rw [← sfq] at run
    have begun : Follows t b (updateRqClock (s.modEnt (.thread u) fun se => { se with initial := false })) := by
      refine (h.modEnt _ _ ⟨rfl, rfl⟩).clock fun q there => timed time q ?_
      rwa [look] at there
    refine enqueueEntity_followed begun ?_ fits nthreads ?_ run (fun other => ?_) fun here =>
      ⟨fun _ => ?_, fun wakeup => absurd form wakeup⟩
    · rw [updateRqClock_view, look]
      exact { hier with }
    · rw [updateRqClock_view, look]
      exact enters.pss
    · rw [updateRqClock_view, look]
      simp [View.bearing, Ne.symm other]
    · cases here
      refine fits.off_queue fun absolute => ?_
      rcases absolute.2 with there | ⟨started, _⟩
      · exact Bool.noConfusion (apart.symm.trans there)
      · exact Bool.noConfusion (started.symm.trans initial)
  | dequeue e flags run seated form =>
    exact dequeueEntity_followed inv h fits nthreads run seated fun here known => form t here (fits.known known).1
  | putPrev u flags run pss inv' =>
    have reaches := pssPutPrevThread_reaches inv' pss run
    obtain ⟨a, walk, rfl⟩ := Option.map_eq_some_iff.mp run
    obtain ⟨rest, eq, _, _, groups⟩ := thread_chain hier u
    have follows : Follows t b a := by
      refine pssPutPrevWalk_follows h hier walk fun member joined => fits.on_queue (View.absolute_joined joined ?_)
      rw [eq] at member
      rcases List.mem_cons.mp member with same | above
      · cases same
        exact pss
      · obtain ⟨g, same⟩ := groups _ above
        cases same
    have out : b.Fits (a.emit (.released u (execTimes a (walkup s (some (.thread u)))) a.rq.clockThread)).view t := by
      have roster := reaches.roster
      unfold Roster.putBack at roster
      dsimp only at roster
      split at roster
      · rename_i joined
        exact fits.dispatched joined roster reaches.frame
      · refine fits.same nthreads ?_
        have frame := congrFun (congrArg View.Frame.sfq reaches.frame) (.thread t)
        have cls := congrFun (congrArg Roster.cls roster) t
        have joined := congrFun (congrArg Roster.joined roster) t
        have initial := congrFun (congrArg Roster.initial roster) t
        have tdState := congrFun (congrArg Roster.tdState roster) t
        simp only [View.bearing, Prod.mk.injEq]
        exact ⟨cls, joined, initial, tdState, frame⟩
    exact ⟨b, follows.emit _ rfl, out⟩
  | activate u run pss inv' =>
    obtain ⟨reaches, joined⟩ := pssActivateThread_reaches inv' pss run
    have out : b.Fits s'.view t := fits.dispatched joined reaches.roster reaches.frame
    obtain ⟨a, walk, rfl⟩ := Option.map_eq_some_iff.mp run
    have follows := pssActivateWalk_follows h walk
    have running : Follows t b (setTdState a u .running) := follows.books rfl fun q there => by rwa [setTdState_view] at there
    exact ⟨b, running.emit _ rfl, out⟩
  | mark ok view marked =>
    exact (h.marked marked (by rw [view])).followed fits nthreads (by rw [view])
  | uncount u run =>
    have less {a : State} (h : Follows t b a) (m n : Nat) (f : Rq → Rq) (clock : (f a.rq).clockThread = a.books.clock) :
        Follows t b ((a.emit (.subtract m n)).modRq f) := by
      have written : Follows t b (a.emit (.subtract m n)) := h.emit _ rfl
      refine written.books ?_ fun _ => id
      rw [books_modRq]
      exact congrArg (fun clock => { (a.emit (.subtract m n)).books with clock := clock }) clock
    have look := rqRunRem_view run
    unfold rqRunRem at run
    split at run
    · cases run
    · have first := less h s.rq.nrRunning 1 (fun rq => { rq with nrRunning := rq.nrRunning - 1 }) rfl
      have follows : Follows t b s' := by
        cases run
        split
        · exact first
        · exact less first _ _ _ rfl
      exact follows.followed fits nthreads (by rw [look]; rfl)
  | choose run =>
    rw [run]
    exact (h.emit _ rfl).followed fits rfl rfl
  | pick q e run =>
    have look := pickNextEntity_view run
    exact (pickNextEntity_follows h run).followed fits nthreads (by rw [look])
  | rtActivate u run cls vacant =>
    obtain ⟨joined, look, ⟨start, books⟩, _⟩ := rtActivateThread_spec run
    have roster : s'.view.roster = s.view.roster.setState u .running := by
      rw [look]
      rfl
    have frame : s'.view.frame = s.view.frame := by
      rw [look]
      rfl
    refine ⟨b, ⟨?_, fun q there => ?_⟩, fits.dispatched joined roster frame⟩
    · rw [books]
      exact h.read
    · have gone : s.view.curr q = some (.thread t) := by rwa [look] at there
      cases (vacant q).symm.trans gone

/-- A store into the thread table that leaves the thread in its class and state. -/
theorem Followed.still (h : Followed t s) (books : s'.books = s.books) (curr : s'.view.curr = s.view.curr)
    (nthreads : s'.view.nthreads = s.view.nthreads) (bearing : s'.view.bearing t = s.view.bearing t) : Followed t s' := by
  obtain ⟨b, h, fits⟩ := h
  exact (h.books books fun q there => curr ▸ there).followed fits nthreads bearing

/-- A thread in no queue may change class: its vruntime is relative to any queue, or it stays in `pss_class`. -/
theorem recast_followed {u : Tid} {priClass : PriClass} {cls : SchedClass} (h : Followed t s) (apart : Detached s.view u)
    (form : forked u → s.view.initial (.thread u) ∨ ¬s.view.resting u ∨ (s.view.cls u = .pss ↔ cls = .pss)) :
    Followed t (storeClass s u priClass cls) := by
  obtain ⟨b, h, fits⟩ := h
  have stored : Follows t b (storeClass s u priClass cls) := h.books rfl fun _ => id
  have look := storeClass_view s u priClass cls
  by_cases here : t = u
  · subst here
    refine ⟨b, stored, fits.still rfl (fun known => ?_) fun _ _ => rfl⟩
    have kind := form (fits.known known).1
    rw [look]
    simp only [View.absolute, View.setClass, update_self, apart.apart]
    change (cls = .pss ∧ (_ ∨ (s.view.initial (.thread t) = false ∧ s.view.resting t))) ↔ _
    rcases kind with fresh | moving | alike
    · simp [fresh]
    · simp [moving]
    · rw [alike]
  · refine stored.followed fits rfl ?_
    rw [look]
    simp [View.bearing, View.setClass, here]

theorem Detached.resting {u : Tid} (apart : Detached s.view u) (absolute : s.view.absolute u) :
    s.view.initial (.thread u) = false ∧ s.view.resting u :=
  absolute.2.resolve_left fun joined => Bool.noConfusion (apart.apart.symm.trans joined)

theorem sleeping_iff {u : Tid} : sleeping s u ↔ s.view.initial (.thread u) = false ∧ s.view.resting u := by
  unfold sleeping View.resting
  rw [Bool.and_eq_true, Bool.and_eq_true, decide_eq_true_iff, decide_eq_true_iff]
  simp [and_assoc]

/-- `pss_switched_from` makes the vruntime of a sleeper relative. -/
theorem switchedFrom_followed {u : Tid} {priClass : PriClass} {cls : SchedClass} (h : Followed t s)
    (apart : Detached s.view u) (form : s.view.absolute u ∧ cls ≠ .pss) :
    Followed t (pssSwitchedFrom (storeClass s u priClass cls) u) := by
  obtain ⟨b, h, fits⟩ := h
  have stored : Follows t b (storeClass s u priClass cls) := h.books rfl fun _ => id
  have look := storeClass_view s u priClass cls
  have asleep : sleeping (storeClass s u priClass cls) u := by
    rw [sleeping_iff, look]
    exact apart.resting form.1
  unfold pssSwitchedFrom
  dsimp only
  rw [if_pos asleep]
  by_cases here : t = u
  · subst here
    have based : b.On (s.view.sfq (.thread t)) := fits.on_queue form.1
    have placed := stored.place (e := .thread t) (s.view.sfq (.thread t)) fun _ => ⟨_, based⟩
    refine ⟨_, placed.sub based fun p there => ?_, fits.taken rfl fun _ absolute => form.2 ?_⟩
    · rw [placeEntity_view, look] at there
      exact absurd there (apart.away p)
    · have cast := absolute.1
      rw [subVtime_view, placeEntity_view, look] at cast
      exact (update_self ..).symm.trans cast
  · have other : EntId.thread u ≠ .thread t := fun same => here (EntId.thread.inj same).symm
    have placed := stored.place (e := .thread u) (s.view.sfq (.thread u)) fun same => absurd same other
    refine (placed.sub_other other).followed fits rfl ?_
    rw [subVtime_view, placeEntity_view, look]
    simp [View.bearing, View.setClass, here]

/-- `pss_switched_to` makes the vruntime of a sleeper absolute. -/
theorem switchedTo_followed {u : Tid} {priClass : PriClass} (h : Followed t s) (apart : Detached s.view u)
    (form : s.view.cls u ≠ .pss ∧ s.view.initial (.thread u) = false ∧ s.view.resting u) :
    Followed t (addVtime (storeClass s u priClass .pss) (s.view.sfq (.thread u)) (.thread u)) := by
  obtain ⟨b, h, fits⟩ := h
  have stored : Follows t b (storeClass s u priClass .pss) := h.books rfl fun _ => id
  have look := storeClass_view s u priClass .pss
  by_cases here : t = u
  · subst here
    refine ⟨_, stored.add _ (fits.off_queue fun absolute => form.1 absolute.1), fits.added rfl ?_ ?_⟩
    · rw [addVtime_view, look]
      exact ⟨update_self .., .inr form.2⟩
    · rw [addVtime_view, look]
      rfl
  · refine (stored.add_other fun same => here (EntId.thread.inj same).symm).followed fits rfl ?_
    rw [addVtime_view, look]
    simp [View.bearing, View.setClass, here]

/-- `pss_sched_group_move` takes the vtime of the old queue out of the vruntime of a sleeper, and puts that of the new
one in; the vruntime of any other thread in no queue is relative. -/
theorem move_followed {u : Tid} {onRq : Bool} (h : Followed t s) (apart : Detached s.view u) (pss : s.view.cls u = .pss)
    (form : onRq = false ↔ s.view.resting u) : Followed t (pssSchedGroupMove s u onRq) := by
  obtain ⟨b, h, fits⟩ := h
  have moves {b : Basis} {a : State} (h : Follows t b a) : Follows t b (setThreadRq a u) := by
    refine h.books (by simp [setThreadRq, books_modEnt]) fun q there => ?_
    rwa [setThreadRq_view] at there
  have fixed {v : View} (look : v = (setThreadRq s u).view) : v.nthreads = s.view.nthreads ∧
      (v.absolute t ↔ s.view.absolute t) ∧ (t ≠ u → v.bearing t = s.view.bearing t) := by
    rw [look, setThreadRq_view]
    refine ⟨rfl, Iff.rfl, fun other => ?_⟩
    simp [View.bearing, other]
  unfold pssSchedGroupMove
  dsimp only
  by_cases adjust : (!(s.ent (.thread u)).initial && !onRq) = true
  · rw [if_pos adjust, if_pos adjust]
    simp only [Bool.and_eq_true, Bool.not_eq_true'] at adjust
    have look : (setThreadRq (subVtime s (s.ent (.thread u)).sfq (.thread u)) u).view = (setThreadRq s u).view := by
      rw [setThreadRq_view, setThreadRq_view, subVtime_view]
    obtain ⟨nthreads, absolute, others⟩ := fixed look
    by_cases here : t = u
    · subst here
      have before : s.view.absolute t := ⟨pss, .inr ⟨adjust.1, form.mp adjust.2⟩⟩
      have left := moves (h.sub (fits.on_queue before) fun p there => absurd there (apart.away p))
      have entered := left.add ((setThreadRq (subVtime s (s.ent (.thread t)).sfq (.thread t)) t).ent (.thread t)).sfq b.taken_off
      rw [Basis.taken_added] at entered
      refine ⟨_, entered, fits.added ?_ ?_ ?_⟩
      · rw [addVtime_view]
        exact nthreads
      · rw [addVtime_view]
        exact absolute.mpr before
      · rw [addVtime_view]
        rfl
    · have other : EntId.thread u ≠ .thread t := fun same => here (EntId.thread.inj same).symm
      refine ((moves (h.sub_other other)).add_other other).followed fits ?_ ?_
      · rw [addVtime_view]
        exact nthreads
      · rw [addVtime_view]
        exact others here
  · rw [if_neg adjust, if_neg adjust]
    obtain ⟨nthreads, absolute, others⟩ := fixed rfl
    by_cases here : t = u
    · subst here
      refine ⟨b, moves h, fits.still nthreads (fun _ => absolute) fun _ before => ?_⟩
      obtain ⟨started, rests⟩ := apart.resting before
      exact absurd (by simpa [form.mpr rests] using started) adjust
    · exact (moves h).followed fits nthreads (others here)

theorem schedGroupCreate_followed {p : Gid} {shares : Nat} (h : Followed t s) (core : s.view.Core L)
    (inside : p < s.view.ngroups) : Followed t (schedGroupCreate s p shares) := by
  obtain ⟨b, h, fits⟩ := h
  have look : (schedGroupCreate s p shares).view = s.view.create p (allocShares shares) := schedGroupCreate_view core inside
  have others (e : EntId) (other : e ≠ .group s.ngroups) : (schedGroupCreate s p shares).ent e = s.ent e :=
    update_of_ne other ..
  have kept := others (.thread t) nofun
  have follows : Follows t b (schedGroupCreate s p shares) := by
    refine h.still [] rfl (by simp) (congrArg SchedEntity.vruntime kept) (congrArg SchedEntity.timingStart kept) rfl
      fun q there => ?_
    rwa [look] at there
  refine follows.followed fits ?_ ?_
  · rw [look]
    rfl
  · rw [look]
    simp [View.bearing, View.create]

/-- A step other than a fork, or the thread's exit. -/
theorem Micro.followed (inv : Inv C s L d) (step : Micro C s s') (unforked : s'.nthreads = s.nthreads)
    (live : t < s.view.nthreads → s'.view.exited t = false) (h : Followed t s) : Followed t s' := by
  have core := inv.core
  cases step with
  | flow step => exact step.followed inv (fun inside => ((step.steady inv).exited t).symm.trans (live inside)) h
  | recast u priClass cls run apart idleness form =>
    rw [run]
    exact recast_followed h apart form
  | switchedFrom u priClass cls run apart idleness form =>
    rw [run]
    exact switchedFrom_followed h apart form
  | switchedTo u priClass run apart idleness form =>
    rw [run]
    exact switchedTo_followed h apart form
  | weigh u run =>
    rw [run]
    have look := setThreadWeight_view s u
    exact h.still (by simp [setThreadWeight, books_modEnt]) (by rw [look]) (by rw [look]) (by rw [look]; rfl)
  | nice p nice range run =>
    rw [run]
    exact h.still rfl rfl rfl rfl
  | move u onRq run apart pss form =>
    rw [run]
    exact move_followed h apart pss form
  | fork parent newProc stale run inside =>
    have more : s'.view.nthreads = s.view.nthreads + 1 := by
      rw [run, fork_view core inside]
      rfl
    have same : s'.view.nthreads = s.view.nthreads := unforked
    omega
  | exit u run =>
    have look : s'.view = { s.view with
        tdState := update s.view.tdState u .inactive, exited := update s.view.exited u true } := by
      rw [run, view_modProc, view_modTd]
      simp
    obtain ⟨b, h, fits⟩ := h
    have alike (known : b ≠ .unborn) : s'.view.bearing t = s.view.bearing t := by
      have other : t ≠ u := by
        rintro rfl
        have alive := live (fits.known known).2
        rw [look] at alive
        exact Bool.noConfusion ((update_self ..).symm.trans alive)
      rw [look]
      simp [View.bearing, other]
    refine ⟨b, h.books (by rw [run]; rfl) fun q there => by rwa [look] at there, ?_⟩
    by_cases known : b = .unborn
    · rw [known]
      exact .of_unborn
    · exact fits.same unforked (alike known)
  | setShares g shares run =>
    have look := storeShares_view s g shares
    rw [run]
    exact h.still rfl rfl rfl rfl
  | create parent shares run inside =>
    rw [run]
    exact schedGroupCreate_followed h core inside
  | sysctl write tun new run =>
    rw [run]
    exact h.still rfl rfl rfl rfl

end steps

end SfqSched
