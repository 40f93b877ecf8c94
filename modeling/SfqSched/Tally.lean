import SfqSched.Booked

namespace SfqSched
open State Function

/-- The entity keeps its place in the accounts of its queue. -/
structure View.Stays (v v' : View) (e : EntId) : Prop where
  joined : v'.joined e = v.joined e
  sfq : v'.sfq e = v.sfq e
  cls : ∀ t, e = .thread t → v'.cls t = v.cls t

namespace View.Stays
variable {v v' v'' : View} {e : EntId}

theorem trans (h : v.Stays v' e) (h' : v'.Stays v'' e) : v.Stays v'' e :=
  ⟨h'.joined.trans h.joined, h'.sfq.trans h.sfq, fun t same => (h'.cls t same).trans (h.cls t same)⟩

theorem of_eq (joined : v'.joined = v.joined) (sfq : v'.sfq = v.sfq) (cls : v'.cls = v.cls) : v.Stays v' e :=
  ⟨by rw [joined], by rw [sfq], fun _ _ => by rw [cls]⟩

theorem even (even : v.Even v') (frame : v'.frame = v.frame) : v.Stays v' e :=
  .of_eq even.joined (congrArg View.Frame.sfq frame) even.cls

theorem seated (h : v.Stays v' e) (seated : v.seated e) : v'.seated e := by
  refine ⟨h.joined.trans seated.1, ?_⟩
  cases e with
  | thread t => exact (h.cls t rfl).trans seated.2
  | group g => trivial

theorem reshare (v : View) (q : Nat) : v.Stays (v.reshare q) e := by
  unfold View.reshare
  split
  · exact .of_eq rfl rfl rfl
  · split
    · exact .of_eq rfl rfl rfl
    · unfold View.reweigh
      split <;> exact .of_eq rfl rfl rfl

end View.Stays

section steps
variable {C : Conds} {s s' : State} {L : List EntId} {d : Option EntId} {e : EntId}

theorem enqueueEntity_stays {q : Gid} {x : EntId} {flags : Nat} (hier : s.view.Hier) (joined : s.view.joined e)
    (run : enqueueEntity s q x flags = some s') : s.view.Stays s'.view e := by
  obtain ⟨boosted, _, look⟩ := enqueueEntity_view hier run
  rw [look]
  have before : s.view.Stays (((s.view.runnable x boosted).enter q x).account q x) e := .of_eq rfl rfl rfl
  refine (before.trans (.reshare _ q)).trans ⟨?_, rfl, fun _ _ => rfl⟩
  have still : ((((s.view.runnable x boosted).enter q x).account q x).reshare q).joined e = true :=
    (before.trans (.reshare _ q)).joined.trans joined
  change update ((((s.view.runnable x boosted).enter q x).account q x).reshare q).joined x true e = _
  rw [still]
  by_cases here : e = x
  · rw [here, update_self]
  · rw [update_of_ne here, still]

/-- An entity of a queue stays on it as long as it is not taken off. -/
theorem Flow.stays (positive : C.positive) (inv : Inv C s L d) (step : Flow C s s') (seated : s.view.seated e) :
    Left s s' e ∨ s'.view.seated e ∧ s'.view.sfq e = s.view.sfq e := by
  have hier := inv.core.hier
  have keeps (stays : s.view.Stays s'.view e) : Left s s' e ∨ s'.view.seated e ∧ s'.view.sfq e = s.view.sfq e :=
    .inr ⟨stays.seated seated, stays.sfq⟩
  have same (view : s'.view = s.view) : Left s s' e ∨ s'.view.seated e ∧ s'.view.sfq e = s.view.sfq e :=
    keeps (.of_eq (by rw [view]) (by rw [view]) (by rw [view]))
  cases step with
  | quiet still => exact .inr ⟨(still.seated e).mpr seated, still.sfq e (.inl seated)⟩
  | clock run => exact same (by rw [run]; rfl)
  | charge q run => exact same (by rw [run, updateCurr_view])
  | reshare q inside run =>
    rw [run] at keeps ⊢
    refine keeps ?_
    rw [updateSfqShares_view]
    exact .reshare ..
  | enqueue x flags run => exact keeps (enqueueEntity_stays hier seated.1 run)
  | start t flags initial run =>
    have look : (updateRqClock (s.modEnt (.thread t) fun se => { se with initial := false })).view =
        { s.view with initial := update s.view.initial (.thread t) false } := by
      rw [updateRqClock_view, view_modEnt]
      simp
    have before : s.view.Stays (updateRqClock (s.modEnt (.thread t) fun se => { se with initial := false })).view e := by
      rw [look]
      exact .of_eq rfl rfl rfl
    refine keeps (before.trans (enqueueEntity_stays ?_ (before.joined.trans seated.1) run))
    rw [look]
    exact { hier with }
  | dequeue x flags run listed =>
    by_cases here : e = x
    · subst here
      exact .inl (dequeueEntity_left inv.core (inv.clear positive) listed.1 run)
    · refine keeps ?_
      rw [dequeueEntity_view inv.core run listed.1]
      refine View.Stays.trans ⟨?_, ?_, fun _ _ => ?_⟩ (.reshare _ _)
      · exact update_of_ne here ..
      · rfl
      · rfl
  | putPrev t flags run pss inv' =>
    have reaches := pssPutPrevThread_reaches inv' pss run
    obtain ⟨a, walk, rfl⟩ := Option.map_eq_some_iff.mp run
    have even : s.view.Even a.view := pssPutPrevWalk_even hier walk
    exact keeps (.even even reaches.frame)
  | activate t run pss inv' =>
    obtain ⟨reaches, _⟩ := pssActivateThread_reaches inv' pss run
    obtain ⟨a, walk, rfl⟩ := Option.map_eq_some_iff.mp run
    have even : s.view.Even (setTdState a t .running).view := by
      refine (pssActivateWalk_even walk).trans ?_
      rw [setTdState_view]
      exact ⟨rfl, rfl, rfl, rfl⟩
    exact keeps (.even even reaches.frame)
  | mark ok view => exact same view
  | uncount t run =>
    refine keeps ?_
    rw [rqRunRem_view run]
    exact .of_eq rfl rfl rfl
  | choose run => exact same (by rw [run]; rfl)
  | pick q x run => exact same (pickNextEntity_view run)
  | rtActivate t run =>
    obtain ⟨_, look, _⟩ := rtActivateThread_spec run
    refine keeps ?_
    rw [look]
    exact .of_eq rfl rfl rfl

theorem Micro.stays (positive : C.positive) (inv : Inv C s L d) (step : Micro C s s') (seated : s.view.seated e) :
    Left s s' e ∨ s'.view.seated e ∧ s'.view.sfq e = s.view.sfq e := by
  have core := inv.core
  have keeps (stays : s.view.Stays s'.view e) : Left s s' e ∨ s'.view.seated e ∧ s'.view.sfq e = s.view.sfq e :=
    .inr ⟨stays.seated seated, stays.sfq⟩
  have other {t : Tid} (apart : s.view.joined (.thread t) = false) : e ≠ .thread t := by
    rintro rfl
    exact Bool.noConfusion (apart.symm.trans seated.1)
  have stored {t : Tid} (apart : Detached s.view t) (priClass : PriClass) (cls : SchedClass) :
      s.view.Stays (storeClass s t priClass cls).view e := by
    rw [storeClass_view]
    refine ⟨rfl, rfl, fun u same => update_of_ne ?_ ..⟩
    rintro rfl
    exact other apart.apart same
  cases step with
  | flow step => exact step.stays positive inv seated
  | recast t priClass cls run apart =>
    rw [run] at keeps ⊢
    exact keeps (stored apart ..)
  | switchedFrom t priClass cls run apart =>
    rw [run] at keeps ⊢
    refine keeps ((stored apart priClass cls).trans ?_)
    unfold pssSwitchedFrom
    dsimp only
    split
    · rw [subVtime_view, placeEntity_view]
      exact .of_eq rfl rfl rfl
    · exact .of_eq rfl rfl rfl
  | switchedTo t priClass run apart =>
    rw [run] at keeps ⊢
    refine keeps ((stored apart priClass .pss).trans ?_)
    rw [addVtime_view]
    exact .of_eq rfl rfl rfl
  | weigh t run =>
    rw [run] at keeps ⊢
    refine keeps ?_
    rw [setThreadWeight_view]
    exact .of_eq rfl rfl rfl
  | nice p nice range run =>
    rw [run] at keeps ⊢
    exact keeps (.of_eq rfl rfl rfl)
  | move t onRq run apart =>
    have moved {a : State} (view : a.view = s.view) : s.view.Stays (setThreadRq a t).view e := by
      rw [setThreadRq_view, view]
      exact ⟨rfl, update_of_ne (other apart.apart) .., fun _ _ => rfl⟩
    rw [run] at keeps ⊢
    refine keeps ?_
    unfold pssSchedGroupMove
    dsimp only
    split
    · rw [addVtime_view]
      exact moved (subVtime_view ..)
    · exact moved rfl
  | fork parent newProc stale run inside =>
    have older := other core.unborn.joined
    rw [run] at keeps ⊢
    refine keeps ?_
    rw [fork_view core inside]
    refine ⟨rfl, update_of_ne older .., fun u same => update_of_ne ?_ ..⟩
    rintro rfl
    exact older same
  | exit t run =>
    rw [run] at keeps ⊢
    refine keeps ?_
    rw [view_modProc, view_modTd]
    refine ⟨rfl, rfl, fun u _ => ?_⟩
    by_cases here : u = t
    · subst here
      exact update_self ..
    · exact update_of_ne here ..
  | setShares g shares run =>
    rw [run] at keeps ⊢
    refine keeps ?_
    change s.view.Stays (storeShares s g shares).view e
    rw [storeShares_view]
    exact .of_eq rfl rfl rfl
  | create parent shares run inside =>
    have older : e ≠ .group s.view.ngroups := by
      rintro rfl
      exact lt_irrefl _ ((EntId.valid_group ..).mp (core.valid _ seated.1)).2
    rw [run] at keeps ⊢
    refine keeps ?_
    rw [schedGroupCreate_view core inside]
    exact ⟨rfl, update_of_ne older .., fun _ _ => rfl⟩
  | sysctl write tun new run =>
    rw [run] at keeps ⊢
    exact keeps (.of_eq rfl rfl rfl)

end steps

namespace Event

/-- Whom `pick_next_entity` has chosen on a queue. -/
def picked (q : Gid) : Event → Option EntId
  | .pick p _ _ _ e => if p = q then some e else none
  | _ => none

/-- The `wakeup_gran` of the leftmost entity of a queue, if one was asked for. -/
def granOn (q : Gid) : Event → Nat
  | .pick p _ _ gran _ => if p = q then gran else 0
  | _ => 0

/-- Who becomes current on a queue. -/
def activated (q : Gid) : Event → Option EntId
  | .activate p e _ => if p = q then some e else none
  | _ => none

/-- Who is taken off a queue. -/
def leaver : Event → Option EntId
  | .leave _ e => some e
  | _ => none

theorem Quiet.unpicked {ev : Event} (quiet : ev.Quiet) (q : Gid) : ev.picked q = none := by
  cases ev <;> first | rfl | exact quiet.elim

end Event

/-- What a step writes down is what it adds to the vruntimes of all entities outside `n`. -/
structure Tallies (o : Prop) (c : Gid → Option EntId) (n : EntId → Prop) (s s' : State) (fresh : List Event) : Prop where
  written : s'.books.journal = fresh ++ s.books.journal
  unpicked : ∀ ev ∈ fresh, ∀ q, ev.picked q = none
  vruntime : ∀ e, ¬n e → s'.books.vruntime e = s.books.vruntime e + BitVec.ofNat 64 (earned e fresh)
  idle : o → ∀ e, ¬n e → (∀ q, c q ≠ some e) → earned e fresh = 0

namespace Tallies
variable {o : Prop} {c : Gid → Option EntId} {n n' : EntId → Prop} {s s' s'' : State} {fresh newer : List Event}

theorem trans (h : Tallies o c n s s' fresh) (h' : Tallies o c n s' s'' newer) : Tallies o c n s s'' (newer ++ fresh) where
  written := by rw [h'.written, h.written, List.append_assoc]
  unpicked ev member := (List.mem_append.mp member).elim (h'.unpicked ev) (h.unpicked ev)
  vruntime e old := by
    rw [h'.vruntime e old, h.vruntime e old, earned_append, BitVec.add_assoc, BitVec.ofNat_add, BitVec.add_comm (BitVec.ofNat 64 _)]
  idle ordered e old away := by rw [earned_append, h'.idle ordered e old away, h.idle ordered e old away]

theorem mono (h : Tallies o c n s s' fresh) (more : ∀ e, n e → n' e) : Tallies o c n' s s' fresh :=
  ⟨h.written, h.unpicked, fun e old => h.vruntime e (old ∘ more e), fun ordered e old => h.idle ordered e (old ∘ more e)⟩

/-- One event that adds nothing and is no choice. -/
theorem emit (ev : Event) (written : s'.books.journal = ev :: s.books.journal) (vruntime : s'.books.vruntime = s.books.vruntime)
    (gain : ∀ e, ev.gain e = 0) (unpicked : ∀ q, ev.picked q = none) : Tallies o c n s s' [ev] where
  written := written
  unpicked := by simpa using unpicked
  vruntime e _ := by rw [vruntime, earned_cons, gain, earned_nil, BitVec.add_zero]
  idle _ e _ _ := by rw [earned_cons, gain, earned_nil]

end Tallies

theorem Entries.tallies {o : Prop} {c : Gid → Option EntId} {n : EntId → Prop} {s s' : State} (h : Entries o c n s s') :
    ∃ fresh, Tallies o c n s s' fresh := by
  induction h with
  | trans _ _ ih ih' =>
    obtain ⟨fresh, first⟩ := ih
    obtain ⟨newer, second⟩ := ih'
    exact ⟨_, first.trans second⟩
  | still fresh written quiet _ _ _ gains =>
    exact ⟨fresh, written, fun ev member q => (quiet ev member).unpicked q, fun e old => (gains e old).1,
      fun ordered e old => (gains e old).2 ordered⟩
  | charge q e w current _ paid =>
    refine ⟨[_], by rw [paid]; rfl, by simp [Event.picked], fun x _ => ?_, fun _ x _ away => ?_⟩
    · rw [paid, earned_cons, earned_nil, Nat.add_zero]
      simp only [Books.charge, Event.gain]
      by_cases here : x = e
      · rw [here, update_self, if_pos rfl]
      · rw [update_of_ne here, if_neg (Ne.symm here), BitVec.add_zero]
    · have other : e ≠ x := by
        rintro rfl
        exact away q current
      simp [Event.gain, other]
  | insert q e run =>
    obtain ⟨_, _, _, _, _, new, _⟩ := rawEnqueueEntity_spec _ _ _ run
    exact ⟨_, .emit (.insert q e _) (by rw [new]) (by rw [new]) (fun _ => rfl) fun _ => rfl⟩

/-- A step is a choice while no entity is current, or what it writes down is what it adds to the
vruntimes, and whoever becomes current by it is written down. -/
theorem Booked.tallied {C : Conds} {s s' : State} (step : Booked C s s') :
    (∃ q e, pickNextEntity s q = some (e, s') ∧ s.view.vacant) ∨
      ∃ fresh, Tallies C.forks s.view.curr (Loose s s') s s' fresh ∧
        ∀ q e, s'.view.curr q = some e → s.view.curr q = some e ∨ ∃ ev ∈ fresh, ev.activated q = some e := by
  cases step with
  | entries h curr =>
    obtain ⟨fresh, tallies⟩ := h.tallies
    exact .inr ⟨fresh, tallies, fun q e current => .inl (curr ▸ current)⟩
  | timed a h h' curr =>
    obtain ⟨fresh, first⟩ := h.tallies
    obtain ⟨newer, second⟩ := h'.tallies
    have passes : Tallies C.forks s.view.curr (Loose s s') a s' newer :=
      ⟨second.written, second.unpicked, second.vruntime, second.idle⟩
    exact .inr ⟨_, first.trans passes, fun q e current => .inl (curr ▸ current)⟩
  | picked q e run vacant => exact .inl ⟨q, e, run, vacant⟩
  | released t a inv h curr charged run =>
    obtain ⟨fresh, tallies⟩ := h.tallies
    have ends : Tallies C.forks s.view.curr (fun _ => False) a s' [_] :=
      .emit _ (by rw [run]; rfl) (by rw [run]; rfl) (fun _ => rfl) fun _ => rfl
    refine .inr ⟨_, (tallies.trans ends).mono fun _ never => never.elim, fun q e current => ?_⟩
    cases (curr q).symm.trans current
  | dispatched t a hier vacant h joined curr started activated books =>
    obtain ⟨fresh, tallies⟩ := h.tallies
    have none_there : s.view.curr = fun _ => none := funext vacant
    rw [none_there]
    have ends : Tallies C.forks (fun _ => none) (fun _ => False) a s' [_] :=
      .emit (.dispatched t (execTimes a (walkup s (some (.thread t)))) a.rq.clockThread) (by rw [books]) (by rw [books])
        (fun _ => rfl) fun _ => rfl
    refine .inr ⟨_, (tallies.trans ends).mono fun _ never => never.elim, fun q e current => .inr ?_⟩
    obtain ⟨fresh', written, all⟩ := activated
    have same : fresh' = fresh := List.append_cancel_right (written.symm.trans tallies.written)
    obtain ⟨member, place⟩ := (curr q e).mp current
    obtain ⟨clock, there⟩ := all e member
    refine ⟨_, List.mem_append_right _ (same ▸ there), ?_⟩
    rw [place]
    exact if_pos rfl

end SfqSched
