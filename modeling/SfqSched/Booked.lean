import SfqSched.Entries
import SfqSched.Weights

namespace SfqSched
open State Function

/-- The current entities stay, and those that are joined stay joined. -/
structure View.Holding (v v' : View) : Prop where
  curr : v'.curr = v.curr
  joined : ∀ q e, v.curr q = some e → v.joined e → v'.joined e

theorem View.Holding.of_joined {v v' : View} (curr : v'.curr = v.curr) (joined : v'.joined = v.joined) : v.Holding v' :=
  ⟨curr, fun _ _ _ there => by rw [joined]; exact there⟩

theorem View.reshare_curr (v : View) (q : Nat) : (v.reshare q).curr = v.curr := by
  unfold View.reshare
  split
  · rfl
  · split
    · rfl
    · unfold View.reweigh
      split <;> rfl

namespace Entries
variable {o : Prop} {c : Gid → Option EntId} {n : EntId → Prop} {s s' : State} {q : Gid} {e : EntId}

theorem clock (h : Entries o c n s s') : s'.books.clock = s.books.clock := by
  induction h with
  | trans _ _ ih ih' => exact ih'.trans ih
  | still _ _ _ _ _ _ _ clock => exact clock
  | charge q e w _ _ paid => rw [paid]; rfl
  | insert q e run =>
    obtain ⟨_, _, _, _, _, new, _⟩ := rawEnqueueEntity_spec _ _ _ run
    rw [new]

/-- Whoever may be charged is charged up to now, or not at all. -/
theorem timing (h : Entries o c n s s') (current : c q = some e) :
    s'.books.timingStart e = s.books.timingStart e ∨ s'.books.timingStart e = s.books.clock := by
  induction h with
  | trans first _ ih ih' =>
    rcases ih' with same | now
    · rw [same]
      exact ih
    · rw [now]
      exact .inr first.clock
  | still _ _ _ _ _ times => exact .inl (times q e current).1
  | charge p x w _ _ paid =>
    rw [paid]
    by_cases here : e = x
    · subst here
      exact .inr (update_self ..)
    · exact .inl (update_of_ne here ..)
  | insert p x run =>
    obtain ⟨_, _, _, _, _, new, _⟩ := rawEnqueueEntity_spec _ _ _ run
    rw [new]
    exact .inl rfl

/-- Who has been charged up to now stays so. -/
theorem charged (h : Entries o c n s s') (current : c q = some e) (now : s.books.timingStart e = s.books.clock) :
    s'.books.timingStart e = s'.books.clock := by
  rw [h.clock]
  rcases h.timing current with same | done
  · exact same.trans now
  · exact done

end Entries

section walks
variable {C : Conds} {s s' : State} {L : List EntId} {d : Option EntId} {q : Gid} {e : EntId} {flags : Nat}

theorem updateCurr_charged (current : s.view.curr q = some e) :
    (updateCurr s q).books.timingStart e = (updateCurr s q).books.clock := by
  rcases updateCurr_books s q with ⟨same, now⟩ | ⟨x, w, there, _, paid⟩
  · rw [same]
    exact now e current
  · cases current.symm.trans there
    rw [paid]
    exact update_self ..

/-- A joined entity that goes back on its queue has been charged. -/
theorem putPrevEntity_charged (hier : s.view.Hier) (current : s.view.curr q = some e) (joined : s.view.joined e)
    (run : putPrevEntity s q e flags = some s') : s'.books.timingStart e = s'.books.clock := by
  have release (a : State) : (putPrevRelease a q e).books.timingStart = a.books.timingStart ∧
      (putPrevRelease a q e).books.clock = a.books.clock := by
    simp [putPrevRelease, books_modSfq, books_emit]
  rcases putPrevEntity_parts run with ⟨apart, _⟩ | ⟨_, a, b, first, second, rfl⟩
  · exact Bool.noConfusion (apart.symm.trans joined)
  · obtain ⟨_, queued⟩ := setRunq_spec (by simpa using hier) first
    obtain ⟨_, _, _, _, _, inserted, _⟩ := rawEnqueueEntity_spec _ _ _ second
    rw [(release b).1, (release b).2, inserted, queued]
    unfold putPrevCharge
    split
    · exact updateCurr_charged (by simpa [setSkipCandidate] using current)
    · exact updateCurr_charged current

/-- After the loop of `pss_put_prev_thread` every joined entity of the chain has been charged. -/
theorem pssPutPrevWalk_charged {chain : List EntId} (positive : C.positive) (inv : Inv C s chain d)
    (nodup : chain.Nodup) (pss : ∀ e ∈ chain, e.pss s.view.cls) (run : pssPutPrevWalk s chain flags = some s')
    (member : e ∈ chain) (joined : s.view.joined e) : s'.books.timingStart e = s'.books.clock := by
  induction chain generalizing s with
  | nil => cases member
  | cons x rest ih =>
    obtain ⟨others, once⟩ := List.nodup_cons.mp nodup
    unfold pssPutPrevWalk at run
    split at run
    · cases run
    · rename_i a step
      obtain ⟨inv', _, frame⟩ := putPrevEntity_inv inv others (pss x (List.mem_cons_self ..)) step
      have even := (putPrevEntity_even inv.core.hier step).2
      have pss' (y : EntId) (above : y ∈ rest) : y.pss a.view.cls :=
        even.cls ▸ pss y (List.mem_cons_of_mem _ above)
      rcases List.mem_cons.mp member with rfl | above
      · have current : s.view.curr (s.view.sfq e) = some e := (inv.core.curr _ e).mpr ⟨member, rfl⟩
        have now := putPrevEntity_charged inv.core.hier current joined step
        have within (q : Gid) (y : EntId) (there : a.view.curr q = some y) : s.view.curr q = some y := by
          have sfq : a.view.sfq = s.view.sfq := congrArg View.Frame.sfq frame
          obtain ⟨listed, place⟩ := (inv'.core.curr q y).mp there
          exact (inv.core.curr q y).mpr ⟨List.mem_cons_of_mem _ listed, sfq ▸ place⟩
        have rests : Entries True s.view.curr (fun _ => True) a s' := pssPutPrevWalk_entries positive inv' once pss' within run
        exact rests.charged current now
      · exact ih inv' once pss' run above (even.joined ▸ joined)

/-- After the loop of `pss_activate_thread` the times of the whole chain start now. -/
theorem pssActivateWalk_times {chain : List EntId} (run : pssActivateWalk s chain = some s') :
    s'.books.sumExec = s.books.sumExec ∧ s'.books.clock = s.books.clock ∧
      ∀ e, e ∈ chain ∨ s.books.timingStart e = s.books.clock → s'.books.timingStart e = s.books.clock := by
  induction chain generalizing s with
  | nil =>
    cases run
    exact ⟨rfl, rfl, fun e now => now.resolve_left (List.not_mem_nil)⟩
  | cons x rest ih =>
    unfold pssActivateWalk at run
    split at run
    · cases run
    · rename_i a step
      obtain ⟨_, b, first, _, rfl⟩ := activateEntity_parts step
      obtain ⟨_, _, removed⟩ := rawDequeueEntity_spec _ _ _ first
      have books : (activateStart b (s.ent x).sfq x).books.sumExec = s.books.sumExec ∧
          (activateStart b (s.ent x).sfq x).books.clock = s.books.clock ∧
          (activateStart b (s.ent x).sfq x).books.timingStart = update s.books.timingStart x s.books.clock := by
        simp [activateStart, books_modEnt, books_modSfq, books_emit, removed]
      obtain ⟨sums, clock, started⟩ := ih run
      rw [books.1] at sums
      rw [books.2.1] at clock started
      refine ⟨sums, clock, fun e now => started e ?_⟩
      rw [books.2.2]
      by_cases here : e = x
      · subst here
        exact .inr (update_self ..)
      · rw [update_of_ne here]
        exact now.imp_left fun member => (List.mem_cons.mp member).resolve_left here

end walks

/-- The vruntime of an entity may be written anew while the entity is in no accounts. -/
def Loose (s s' : State) (e : EntId) : Prop := s.view.joined e = false ∨ Left s s' e

/-- After the loop of `pss_activate_thread` the activation of each entity of the chain is written down. -/
theorem pssActivateWalk_written {C : Conds} {s s' : State} {L chain : List EntId} {d : Option EntId} (inv : Inv C s L d)
    (run : pssActivateWalk s chain = some s') :
    ∃ fresh, s'.books.journal = fresh ++ s.books.journal ∧
      ∀ e ∈ chain, ∃ clock, .activate (s.view.sfq e) e clock ∈ fresh := by
  induction chain generalizing s L with
  | nil =>
    cases run
    exact ⟨[], rfl, fun e member => absurd member (List.not_mem_nil)⟩
  | cons x rest ih =>
    unfold pssActivateWalk at run
    split at run
    · cases run
    · rename_i a step
      obtain ⟨inv', _, _, _, frame⟩ := activateEntity_inv inv step
      have sfq : a.view.sfq = s.view.sfq := congrArg View.Frame.sfq frame
      obtain ⟨fresh, written, all⟩ := ih inv' run
      obtain ⟨_, b, first, _, rfl⟩ := activateEntity_parts step
      obtain ⟨_, _, removed⟩ := rawDequeueEntity_spec _ _ _ first
      have start : (activateStart b (s.ent x).sfq x).books.journal =
          .activate (s.view.sfq x) x b.rq.clockThread :: s.books.journal := by
        simp [activateStart, books_modEnt, books_modSfq, books_emit, removed]
      rw [sfq] at all
      refine ⟨fresh ++ [.activate (s.view.sfq x) x b.rq.clockThread], ?_, fun e member => ?_⟩
      · rw [written, start, List.append_assoc, List.singleton_append]
      · rcases List.mem_cons.mp member with rfl | above
        · exact ⟨_, List.mem_append_right _ (List.mem_singleton_self _)⟩
        · obtain ⟨clock, there⟩ := all e above
          exact ⟨clock, List.mem_append_left _ there⟩

/-- What a step does to the books: it leaves the current entities as they are, with time
passing at most at a moment at which all of them are joined, or it is a release or a dispatch. -/
inductive Booked (C : Conds) (s s' : State) : Prop
  | entries (h : Entries C.forks s.view.curr (Loose s s') s s') (curr : s'.view.curr = s.view.curr)
      (settled : ∀ q e, s.view.curr q = some e →
        (s.view.joined e → s'.view.joined e) ∨ s'.books.timingStart e = s'.books.clock)
  | timed (a : State) (h : Entries C.forks s.view.curr (Loose s s') s a)
      (h' : Entries C.forks s.view.curr (Loose s s') (updateRqClock a) s')
      (curr : s'.view.curr = s.view.curr) (joined : ∀ q e, s.view.curr q = some e → s'.view.joined e)
  | picked (q : Gid) (e : EntId) (run : pickNextEntity s q = some (e, s')) (vacant : s.view.vacant)
  | released (t : Tid) (a : State) (inv : Inv C s (walkup s (some (.thread t))) none)
      (h : Entries C.forks s.view.curr (fun _ => False) s a) (curr : ∀ q, s'.view.curr q = none)
      (charged : ∀ e ∈ walkup s (some (.thread t)), s.view.joined e → a.books.timingStart e = a.books.clock)
      (run : s' = a.emit (.released t (execTimes a (walkup s (some (.thread t)))) a.rq.clockThread))
  | dispatched (t : Tid) (a : State) (hier : s.view.Hier) (vacant : ∀ q, s.view.curr q = none)
      (h : Entries C.forks (fun _ => none) (fun _ => False) s a)
      (joined : ∀ e ∈ walkup s (some (.thread t)), s'.view.joined e)
      (curr : ∀ q e, s'.view.curr q = some e ↔ e ∈ walkup s (some (.thread t)) ∧ s.view.sfq e = q)
      (started : ∀ e ∈ walkup s (some (.thread t)), a.books.timingStart e = a.books.clock)
      (activated : ∃ fresh, a.books.journal = fresh ++ s.books.journal ∧
        ∀ e ∈ walkup s (some (.thread t)), ∃ clock, .activate (s.view.sfq e) e clock ∈ fresh)
      (books : s'.books = { a.books with
        journal := .dispatched t (execTimes a (walkup s (some (.thread t)))) a.rq.clockThread :: a.books.journal })

namespace Booked
variable {C : Conds} {s s' : State}

theorem holding (h : Entries C.forks s.view.curr (Loose s s') s s') (holds : s.view.Holding s'.view) : Booked C s s' :=
  .entries h holds.curr fun q e current => .inl (holds.joined q e current)

theorem view (h : Entries C.forks s.view.curr (Loose s s') s s') (same : s'.view = s.view) : Booked C s s' :=
  .holding h (.of_joined (by rw [same]) (by rw [same]))

end Booked

section steps
variable {C : Conds} {s s' : State} {L : List EntId} {d : Option EntId}

theorem enqueueEntity_holding {q : Gid} {e : EntId} {flags : Nat} (hier : s.view.Hier)
    (run : enqueueEntity s q e flags = some s') : s.view.Holding s'.view := by
  obtain ⟨_, _, look⟩ := enqueueEntity_view hier run
  rw [look]
  refine ⟨View.reshare_curr .., fun p x _ joined => ?_⟩
  change update (View.reshare _ q).joined e true x = true
  rw [View.reshare_joined]
  by_cases here : x = e
  · rw [here, update_self]
  · rw [update_of_ne here]
    exact joined

/-- A thread outside the accounts of all queues is in no timeline. -/
theorem Detached.out {t : Tid} (apart : Detached s.view t) (inv : Inv C s L d) (p : Gid) :
    .thread t ∉ s.view.timeline p := inv.core.out (inv.core.off apart.apart) p

theorem Flow.booked (positive : C.positive) (inv : Inv C s L d) (step : Flow C s s') : Booked C s s' := by
  have core := inv.core
  have hier := core.hier
  have clear := inv.clear positive
  have elsewhere {v : View} {e : EntId} {M : List EntId} (core : v.Core M) (away : v.curr (v.sfq e) ≠ some e) (p : Gid) :
      v.curr p ≠ some e := by
    intro current
    have place : v.sfq e = p := ((core.curr p e).mp current).2
    exact away (place.symm ▸ current)
  cases step with
  | quiet same =>
    refine .holding (.books same.books) ⟨same.curr, fun q e current joined => ?_⟩
    exact ((same.seated e).mpr ⟨joined, core.currPss q e current⟩).1
  | clock run fits =>
    rw [run]
    exact .timed s (.refl s) (.refl _) rfl fun q e current => fits q e current (.inl positive)
  | charge q run =>
    rw [run]
    exact .view (updateCurr_entries q clear) (updateCurr_view ..)
  | reshare q inside run =>
    rw [run]
    refine .holding (updateSfqShares_entries q clear) (.of_joined ?_ ?_)
    · rw [updateSfqShares_view, View.reshare_curr]
    · rw [updateSfqShares_view, View.reshare_joined]
  | enqueue e flags run fits =>
    exact .holding (enqueueEntity_entries core clear (.inl (enqueueEntity_parts run).1) (elsewhere core (fits.away (.inl positive))) run)
      (enqueueEntity_holding hier run)
  | start t flags initial run time fits =>
    have look : (s.modEnt (.thread t) fun se => { se with initial := false }).view =
        { s.view with initial := update s.view.initial (.thread t) false } := by
      rw [view_modEnt]
      simp
    have books : (s.modEnt (.thread t) fun se => { se with initial := false }).books = s.books := by
      simp [books_modEnt]
    generalize (s.modEnt (.thread t) fun se => { se with initial := false }) = a at look books run
    have inv' : Inv C (updateRqClock a) L d := inv.of_bones (by rw [updateRqClock_view, look]; rfl)
    have curr : a.view.curr = s.view.curr := by rw [look]
    have joined : a.view.joined = s.view.joined := by rw [look]
    have apart : s.view.joined (.thread t) = false := by
      have before := (enqueueEntity_parts run).1
      rwa [updateRqClock_view, joined] at before
    have clear' : (updateRqClock a).view.Clear s.view.curr := by
      have cleared := inv'.clear positive
      rwa [updateRqClock_view, curr] at cleared
    have holds := enqueueEntity_holding inv'.core.hier run
    refine .timed a (.books books) (enqueueEntity_entries inv'.core clear' (.inl apart) (fun p => ?_) run) (holds.curr.trans curr) ?_
    · rw [updateRqClock_view, curr]
      exact elsewhere core (fits.away (.inl positive)) p
    · intro q e current
      refine holds.joined q e (by rw [updateRqClock_view, curr]; exact current) ?_
      rw [updateRqClock_view, joined]
      exact time q e current (.inl positive)
  | dequeue e flags run seated =>
    have look := dequeueEntity_view core run seated.1
    refine .entries (dequeueEntity_entries core clear .inr run) ?_ fun q x current => ?_
    · rw [look, View.reshare_curr]
      rfl
    · by_cases here : x = e
      · subst here
        have place : s.view.sfq x = q := ((core.curr q x).mp current).2
        have rests : Entries C.forks s.view.curr (Loose s s') (updateCurr s (s.view.sfq x)) s' :=
          dequeueEntity_after core clear .inr seated.1 run
        refine .inr (rests.charged current (updateCurr_charged ?_))
        rw [place]
        exact current
      · refine .inl fun joined => ?_
        rw [look, View.reshare_joined]
        exact (update_of_ne here ..).trans joined
  | putPrev t flags run pss inv =>
    have reaches := pssPutPrevThread_reaches inv pss run
    obtain ⟨a, walk, rfl⟩ := Option.map_eq_some_iff.mp run
    obtain ⟨rest, eq, _, nodup, groups⟩ := thread_chain hier t
    have members (e : EntId) (member : e ∈ walkup s (some (.thread t))) : e.pss s.view.cls := by
      rw [eq] at member
      rcases List.mem_cons.mp member with rfl | above
      · exact pss
      · obtain ⟨g, rfl⟩ := groups e above
        trivial
    refine .released t a inv (pssPutPrevWalk_entries positive inv nodup members (fun _ _ => id) walk) (fun q => ?_)
      (fun e member joined => pssPutPrevWalk_charged positive inv nodup members walk member joined) rfl
    by_contra there
    obtain ⟨e, current⟩ := Option.ne_none_iff_exists'.mp there
    exact List.not_mem_nil ((reaches.inv.core.curr q e).mp current).1
  | activate t run pss inv =>
    obtain ⟨reaches, _⟩ := pssActivateThread_reaches inv pss run
    have sfq : s'.view.sfq = s.view.sfq := congrArg View.Frame.sfq reaches.frame
    obtain ⟨a, walk, rfl⟩ := Option.map_eq_some_iff.mp run
    obtain ⟨_, clock, started⟩ := pssActivateWalk_times walk
    obtain ⟨_, members, _, _, _⟩ := pssActivateWalk_inv inv walk
    have even := pssActivateWalk_even walk
    refine .dispatched t a hier (fun q => ?_) (pssActivateWalk_entries walk) (fun e member => ?_) (fun q e => ?_)
      (fun e member => by rw [clock]; exact started e (.inl member)) (pssActivateWalk_written inv walk) ?_
    · by_contra there
      obtain ⟨e, current⟩ := Option.ne_none_iff_exists'.mp there
      exact List.not_mem_nil ((inv.core.curr q e).mp current).1
    · rw [view_emit, setTdState_view]
      exact even.joined ▸ members e member
    · rw [← sfq]
      exact reaches.inv.core.curr q e
    · rfl
  | mark ok view marked => exact .view (.marked marked) view
  | uncount t run =>
    have less {k : EntId → Prop} (a : State) (m n : Nat) (f : Rq → Rq) (clock : (f a.rq).clockThread = a.books.clock) :
        Entries C.forks s.view.curr k a ((a.emit (.subtract m n)).modRq f) := by
      refine .one (.subtract m n) rfl ⟨trivial, fun _ => rfl⟩ rfl rfl ?_
      simp only [Books.times, books_modRq, books_emit]
      exact congrArg _ (congrArg _ clock)
    unfold rqRunRem at run
    split at run
    · cases run
    · have first {k : EntId → Prop} := less (k := k) s s.rq.nrRunning 1 (fun rq => { rq with nrRunning := rq.nrRunning - 1 }) rfl
      cases run
      split
      · exact .holding first (.of_joined rfl rfl)
      · refine .holding (first.trans (less _ _ 1 (fun rq => { rq with nrSysrunning := rq.nrSysrunning - 1 }) rfl)) ?_
        exact .of_joined rfl rfl
  | choose run =>
    rw [run]
    exact .view (.one .choose rfl ⟨trivial, fun _ => rfl⟩ rfl rfl rfl) rfl
  | pick q e run vacant => exact .picked q e run vacant
  | rtActivate t run cls vacant =>
    obtain ⟨_, look, ⟨_, books⟩, _⟩ := rtActivateThread_spec run
    refine .holding (.still [] ?_ (by simp) (fun q => ?_) (fun _ q e _ => ?_) (fun q e current => ?_)
      (fun e _ => ⟨?_, fun _ _ => rfl⟩) ?_) (.of_joined ?_ ?_)
    · rw [books]
      rfl
    · rw [books]
    · rw [books]
    · rw [vacant q] at current
      cases current
    · rw [books, earned_nil, BitVec.add_zero]
    · rw [books]
    · rw [look]
      rfl
    · rw [look]
      rfl

theorem pssSchedGroupMove_entries {o : Prop} {c : Gid → Option EntId} {n : EntId → Prop} {t : Tid} (onRq : Bool)
    (new : n (.thread t)) (out : ∀ p, .thread t ∉ s.view.timeline p) : Entries o c n s (pssSchedGroupMove s t onRq) := by
  have moved (s : State) : Entries o c n s (setThreadRq s t) := .books (by simp [setThreadRq, books_modEnt])
  unfold pssSchedGroupMove
  dsimp only
  split
  · refine (subVtime_entries _ new out).trans ((moved _).trans (addVtime_entries _ new ?_))
    simpa [setThreadRq, view_modEnt] using out
  · exact moved s

theorem Micro.booked (positive : C.positive) (inv : Inv C s L d) (step : Micro C s s') :
    Booked C s s' := by
  have core := inv.core
  have stored {n : EntId → Prop} (t : Tid) (priClass : PriClass) (cls : SchedClass) :
      Entries C.forks s.view.curr n s (storeClass s t priClass cls) := .books rfl
  have holds (t : Tid) (priClass : PriClass) (cls : SchedClass) : s.view.Holding (storeClass s t priClass cls).view := by
    rw [storeClass_view]
    exact .of_joined rfl rfl
  cases step with
  | flow step => exact step.booked positive inv
  | recast t priClass cls run =>
    rw [run]
    exact .holding (stored ..) (holds ..)
  | switchedFrom t priClass cls run apart =>
    have out : ∀ p, .thread t ∉ (storeClass s t priClass cls).view.timeline p := by
      rw [storeClass_view]
      exact apart.out inv
    rw [run]
    unfold pssSwitchedFrom
    dsimp only
    split
    · refine .holding ((stored t priClass cls).trans
        ((placeEntity_entries _ (.inl apart.apart) out).trans (subVtime_entries _ (.inl apart.apart) ?_))) ?_
      · rw [placeEntity_view]
        exact out
      · rw [subVtime_view, placeEntity_view]
        exact holds ..
    · exact .holding (stored ..) (holds ..)
  | switchedTo t priClass run apart =>
    rw [run]
    refine .holding ((stored t priClass .pss).trans (addVtime_entries _ (.inl apart.apart) ?_)) ?_
    · rw [storeClass_view]
      exact apart.out inv
    · rw [addVtime_view]
      exact holds ..
  | weigh t run =>
    rw [run]
    refine .holding (.books (by simp [setThreadWeight, books_modEnt])) ?_
    rw [setThreadWeight_view]
    exact .of_joined rfl rfl
  | nice p nice range run =>
    rw [run]
    exact .view (.books rfl) rfl
  | move t onRq run apart =>
    rw [run]
    have moves {a : State} (same : a.view = s.view) : s.view.Holding (setThreadRq a t).view := by
      rw [setThreadRq_view, same]
      exact .of_joined rfl rfl
    refine .holding (pssSchedGroupMove_entries onRq (.inl apart.apart) (apart.out inv)) ?_
    unfold pssSchedGroupMove
    dsimp only
    split
    · rw [addVtime_view]
      exact moves (subVtime_view ..)
    · exact moves rfl
  | fork parent newProc stale run inside live time swap =>
    have known (q : Gid) (e : EntId) (current : s.view.curr q = some e) : s.view.joined e := time q e current (.inl positive)
    have away (q : Gid) : s.view.curr q ≠ some (.thread s.view.nthreads) := by
      intro current
      exact Bool.noConfusion (core.unborn.joined.symm.trans (known q _ current))
    subst run
    have entries := fork_entries (n := Loose s (SfqSched.fork s parent newProc stale)) positive inv inside
      (fun _ apart => .inl apart) swap away
    obtain ⟨a, b, before, same | clocked, after⟩ := entries
    · refine .holding (before.trans (same ▸ after)) ?_
      rw [fork_view core inside]
      exact .of_joined rfl rfl
    · refine .timed a before (clocked ▸ after) ?_ ?_
      · rw [fork_view core inside]
        rfl
      · rw [fork_view core inside]
        exact known
  | exit t run =>
    rw [run]
    refine .holding (.books rfl) ?_
    rw [view_modProc, view_modTd]
    exact .of_joined rfl rfl
  | setShares g shares run =>
    rw [run]
    have view := storeShares_view s g shares
    refine .holding (.books rfl) ?_
    change s.view.Holding (storeShares s g shares).view
    rw [view]
    exact .of_joined rfl rfl
  | create parent shares run inside apart =>
    rw [run]
    refine .holding (schedGroupCreate_entries core apart (fun _ unborn => .inl unborn) parent shares) ?_
    rw [schedGroupCreate_view core inside]
    exact .of_joined rfl rfl
  | sysctl write tun new run =>
    rw [run]
    exact .view (.books rfl) rfl

end steps
end SfqSched
