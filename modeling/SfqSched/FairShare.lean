import SfqSched.Tally
import SfqSched.TimelineOrder
import Mathlib.Data.BitVec
import Mathlib.Tactic.Ring

namespace SfqSched
open State Function

/-- The newest choice of `pick_next_entity` on a queue. -/
def lastPick (q : Gid) (events : List Event) : Option EntId := events.findSome? (Event.picked q)

/-- What was written down since then. -/
def sincePick (q : Gid) (events : List Event) : List Event := events.takeWhile fun ev => (ev.picked q).isNone

section picks
variable {q : Gid} {i : EntId} {fresh older : List Event}

theorem lastPick_append (unpicked : ∀ ev ∈ fresh, ev.picked q = none) : lastPick q (fresh ++ older) = lastPick q older := by
  unfold lastPick
  rw [List.findSome?_append, List.findSome?_eq_none_iff.mpr unpicked, Option.none_or]

theorem sincePick_append (unpicked : ∀ ev ∈ fresh, ev.picked q = none) :
    sincePick q (fresh ++ older) = fresh ++ sincePick q older := by
  unfold sincePick
  exact List.takeWhile_append_of_pos fun ev member => by simp [unpicked ev member]

/-- If the newest choice was `i`, it was so within part of the time, or there was none. -/
theorem lastPick_recent (picked : lastPick q (fresh ++ older) = some i) :
    lastPick q fresh = none ∨ lastPick q fresh = some i := by
  unfold lastPick at *
  rw [List.findSome?_append] at picked
  cases recent : fresh.findSome? (Event.picked q) with
  | none => exact .inl rfl
  | some e =>
    rw [recent, Option.some_or] at picked
    exact .inr picked

end picks

/-- The entity is joined to a queue of `pss_class`. -/
def State.joinedTo (s : State) (q : Gid) (e : EntId) : Prop :=
  (s.ent e).joined ∧ e.pss (fun t => (s.td t).cls) ∧ (s.ent e).sfq = q

instance (s : State) (q : Gid) : DecidablePred (s.joinedTo q)
  | .thread t => inferInstanceAs (Decidable ((s.ent (.thread t)).joined = true ∧ (s.td t).cls = .pss ∧ (s.ent (.thread t)).sfq = q))
  | .group g => inferInstanceAs (Decidable ((s.ent (.group g)).joined = true ∧ True ∧ (s.ent (.group g)).sfq = q))

/-- How far the vruntime of `i` is ahead of that of `j` after some more events. -/
def State.lead (s : State) (i j : EntId) (events : List Event) : Int :=
  sdiff (s.ent i).vruntime (s.ent j).vruntime + earned i events - earned j events

/-- An interval that begins with `s`: `i` and `j` stay on their queue `q` with their vruntimes in one window, `i` is only
dispatched as the newest choice of `pick_next_entity`, `G` bounds `wakeup_gran` and `D` what `i` earns between two choices. -/
structure Interval (q : Gid) (i j : EntId) (G D : Nat) (s : State) (events : List Event) : Prop where
  stay : ∀ ev ∈ events, ev.leaver ≠ some i ∧ ev.leaver ≠ some j
  gran : ∀ ev ∈ events, ev.granOn q ≤ G
  dispatch : ∀ ev older, ev :: older <:+ events → ev.activated q = some i → lastPick q (older ++ s.journal) = some i
  increase : ∀ events', events' <:+ events → earned i (sincePick q events') ≤ D
  window : ∀ events', events' <:+ events → -2 ^ 63 ≤ s.lead i j events' ∧ s.lead i j events' < 2 ^ 63

theorem interval_iff {q : Gid} {i j : EntId} {G D : Nat} {s : State} {events : List Event} :
    Interval q i j G D s events ↔
      (∀ ev ∈ events, (ev.leaver ≠ some i ∧ ev.leaver ≠ some j) ∧ ev.granOn q ≤ G) ∧
      ∀ events' ∈ events.tails, earned i (sincePick q events') ≤ D ∧
        (-2 ^ 63 ≤ s.lead i j events' ∧ s.lead i j events' < 2 ^ 63) ∧
        (events'.head?.bind (Event.activated q) = some i → lastPick q (events'.tail ++ s.journal) = some i) := by
  constructor
  · intro h
    refine ⟨fun ev member => ⟨h.stay ev member, h.gran ev member⟩, fun events' part => ?_⟩
    have suffix := (List.mem_tails events' events).mp part
    refine ⟨h.increase events' suffix, h.window events' suffix, ?_⟩
    cases events' with
    | nil => exact fun never => by cases never
    | cons ev older => exact h.dispatch ev older suffix
  · rintro ⟨each, all⟩
    have all (events' : List Event) (suffix : events' <:+ events) := all events' ((List.mem_tails events' events).mpr suffix)
    exact ⟨fun ev member => (each ev member).1, fun ev member => (each ev member).2,
      fun ev older suffix => (all _ suffix).2.2, fun events' suffix => (all events' suffix).1,
      fun events' suffix => (all events' suffix).2.1⟩

instance {q : Gid} {i j : EntId} {G D : Nat} {s : State} {events : List Event} : Decidable (Interval q i j G D s events) :=
  decidable_of_iff' _ interval_iff

/-- The vruntimes are as far apart as was earned. -/
theorem sdiff_earned {a b : BitVec 64} {m n : Nat} (low : -2 ^ 63 ≤ sdiff a b + m - n) (high : sdiff a b + m - n < 2 ^ 63) :
    sdiff (a + BitVec.ofNat 64 m) (b + BitVec.ofNat 64 n) = sdiff a b + m - n := by
  have same : a + BitVec.ofNat 64 m - (b + BitVec.ofNat 64 n) = BitVec.ofInt 64 (sdiff a b + m - n) := by
    rw [sub_eq_add_neg (sdiff a b + m : Int), BitVec.ofInt_add, BitVec.ofInt_add, BitVec.ofInt_neg, sdiff, BitVec.ofInt_toInt,
      BitVec.ofInt_natCast, BitVec.ofInt_natCast]
    ring
  calc sdiff (a + BitVec.ofNat 64 m) (b + BitVec.ofNat 64 n)
      = (BitVec.ofInt 64 (sdiff a b + m - n)).toInt := by rw [← same]; rfl
    _ = (sdiff a b + m - n).bmod (2 ^ 64) := BitVec.toInt_ofInt _
    _ = sdiff a b + m - n := Int.bmod_eq_of_le (by omega) (by omega)

/-- Somewhere in the journal, an entity was taken off. -/
theorem Left.leaver {s s' : State} {e : EntId} {fresh : List Event} (left : Left s s' e)
    (written : s'.books.journal = fresh ++ s.books.journal) : ∃ ev ∈ fresh, ev.leaver = some e := by
  obtain ⟨q, _, ⟨newer, above⟩, ⟨between, rfl⟩⟩ := left
  have same : fresh = newer ++ .leave q e :: between := by
    refine List.append_cancel_right (written.symm.trans (above.symm.trans ?_))
    simp
  refine ⟨.leave q e, ?_, rfl⟩
  rw [same]
  exact List.mem_append_right _ (List.mem_cons_self ..)

/-- How things stand with `i` and `j` when `events` have been written down since `start`. -/
structure Fair (q : Gid) (i j : EntId) (bound : Int) (D : Nat) (start s : State) (events : List Event) : Prop where
  written : s.books.journal = events ++ start.books.journal
  ahead : s.view.seated i ∧ s.view.sfq i = q
  behind : s.view.seated j ∧ s.view.sfq j = q
  charged : s.books.vruntime i = start.books.vruntime i + BitVec.ofNat 64 (earned i events)
  follows : s.books.vruntime j = start.books.vruntime j + BitVec.ofNat 64 (earned j events)
  fair : ∀ events', events' <:+ events → start.lead i j events' ≤ bound + D
  rooted : lastPick q events = none ∨ lastPick q events = some i → start.lead i j events ≤ bound + earned i (sincePick q events)
  current : s.view.curr q = some i → lastPick q events = none ∨ lastPick q events = some i

section steps
variable {C : Conds} {s s' start : State} {L : List EntId} {d : Option EntId} {q : Gid} {i j : EntId} {G D : Nat}
  {events total : List Event}

/-- An entity that is chosen is not far ahead of any other on its queue. -/
theorem picked_close {e : EntId} (core : s.view.Core L) (vacant : s.view.vacant) (order : (s.books.seq q).Pairwise s.books.Precedes)
    (near : s.books.Near q) (led : s.led) (hi : s.view.seated e ∧ s.view.sfq e = q) (hj : s.view.seated j ∧ s.view.sfq j = q)
    {first : EntId} {gran : Nat} (isFirst : s.books.leftmost q = some first) (which : e = first ∨ s.books.close gran e first)
    (small : gran ≤ G) : sdiff (s.books.vruntime e) (s.books.vruntime j) ≤ G := by
  obtain ⟨base, window⟩ := near
  have listed {x : EntId} (h : s.view.seated x ∧ s.view.sfq x = q) : x ∈ s.books.seq q := by
    obtain ⟨seated, place⟩ := h
    have there := core.covered x seated.1 seated.2
    rw [place] at there
    exact Multiset.mem_coe.mp (there.resolve_right fun current => by cases (vacant q).symm.trans current)
  have head : (s.books.seq q).head? = some first := (led q).symm.trans isFirst
  obtain ⟨rest, seq⟩ : ∃ rest, s.books.seq q = first :: rest := List.head?_eq_some_iff.mp head
  have mine := window e (listed hi)
  have other := window j (listed hj)
  have least := window first (seq ▸ List.mem_cons_self ..)
  have before : SchedTime.since base (s.books.vruntime first) ≤ SchedTime.since base (s.books.vruntime j) := by
    rw [seq] at order
    rcases List.mem_cons.mp (seq ▸ listed hj) with same | later
    · rw [same]
    · exact (List.rel_of_pairwise_cons order later).le least other
  have close : (SchedTime.since base (s.books.vruntime e) : Int) - SchedTime.since base (s.books.vruntime first) ≤ G := by
    rcases which with same | close
    · rw [same]
      omega
    · unfold Books.close at close
      rw [sdiff_window mine least] at close
      have bound : (BitVec.ofNat 64 gran).toInt ≤ gran := by
        have mod : (BitVec.ofNat 64 gran).toNat ≤ gran := by
          rw [BitVec.toNat_ofNat]
          exact Nat.mod_le ..
        rw [BitVec.toInt_eq_toNat_cond]
        split <;> omega
      omega
  rw [sdiff_window mine other]
  omega

namespace Fair
variable {bound : Int}

theorem lead_append (start : State) (i j : EntId) (newer older : List Event) :
    start.lead i j (newer ++ older) = start.lead i j older + earned i newer - earned j newer := by
  unfold State.lead
  rw [earned_append, earned_append]
  omega

/-- A choice on a queue that has no current entity. -/
theorem pick {p : Gid} {e : EntId} (fair : Fair q i j bound D start s events) (interval : Interval q i j G D start total)
    (core : s.view.Core L) (vacant : s.view.vacant) (order : (s.books.seq q).Pairwise s.books.Precedes) (near : s.books.Near q)
    (led : s.led) (above : G ≤ bound) (run : pickNextEntity s p = some (e, s'))
    (inside : s'.books.journal <:+ total ++ start.books.journal) :
    ∃ events', Fair q i j bound D start s' events' := by
  obtain ⟨first, gran, isFirst, which, books⟩ := pickNextEntity_written run
  have view := pickNextEntity_view run
  have written : s'.books.journal = (.pick p (s.books.seq p) first gran e :: events) ++ start.books.journal := by
    rw [books, List.cons_append, ← fair.written]
  have suffix : .pick p (s.books.seq p) first gran e :: events <:+ total := by
    rw [written] at inside
    exact List.suffix_append_self_iff.mp inside
  have gains (x : EntId) : earned x (.pick p (s.books.seq p) first gran e :: events) = earned x events := by
    rw [earned_cons]
    exact Nat.zero_add _
  have lead : start.lead i j (.pick p (s.books.seq p) first gran e :: events) = start.lead i j events := by
    unfold State.lead
    rw [gains, gains]
  refine ⟨_, written, ?_, ?_, ?_, ?_, ?_, ?_, ?_⟩
  · rw [view]
    exact fair.ahead
  · rw [view]
    exact fair.behind
  · rw [gains, books]
    exact fair.charged
  · rw [gains, books]
    exact fair.follows
  · intro events' part
    rcases List.suffix_cons_iff.mp part with rfl | older
    · rw [lead]
      exact fair.fair events List.suffix_rfl
    · exact fair.fair events' older
  · intro recent
    rw [lead]
    by_cases here : p = q
    · subst here
      have chosen : lastPick p (.pick p (s.books.seq p) first gran e :: events) = some e := by
        simp [lastPick, Event.picked]
      have same : e = i := by
        rcases recent with never | same
        · cases chosen.symm.trans never
        · exact Option.some.inj (chosen.symm.trans same)
      subst same
      have small : gran ≤ G := by
        have le := interval.gran _ (suffix.subset (List.mem_cons_self ..))
        rwa [Event.granOn, if_pos rfl] at le
      have close := picked_close core vacant order near led fair.ahead fair.behind isFirst which small
      have window := interval.window events ((List.suffix_cons ..).trans suffix)
      have apart : sdiff (s.books.vruntime e) (s.books.vruntime j) = start.lead e j events := by
        rw [fair.charged, fair.follows]
        exact sdiff_earned window.1 window.2
      omega
    · have other : ∀ ev ∈ [Event.pick p (s.books.seq p) first gran e], ev.picked q = none := by
        simpa [Event.picked] using here
      have last : lastPick q (.pick p (s.books.seq p) first gran e :: events) = lastPick q events :=
        lastPick_append other
      have since : sincePick q (.pick p (s.books.seq p) first gran e :: events) = _ :: sincePick q events :=
        sincePick_append other
      rw [last] at recent
      rw [since, earned_cons]
      have before := fair.rooted recent
      omega
  · intro current
    rw [view] at current
    cases (vacant q).symm.trans current

/-- Any other step: only a current entity earns anything, and it was the newest choice. -/
theorem tally {fresh : List Event} (fair : Fair q i j bound D start s events) (interval : Interval q i j G D start total)
    (core : s.view.Core L) (forks : C.forks) (tallies : Tallies C.forks s.view.curr (Loose s s') s s' fresh)
    (dispatched : ∀ p e, s'.view.curr p = some e → s.view.curr p = some e ∨ ∃ ev ∈ fresh, ev.activated p = some e)
    (stays : ∀ e, s.view.seated e → Left s s' e ∨ s'.view.seated e ∧ s'.view.sfq e = s.view.sfq e)
    (inside : s'.books.journal <:+ total ++ start.books.journal) :
    ∃ events', Fair q i j bound D start s' events' := by
  have written : s'.books.journal = (fresh ++ events) ++ start.books.journal := by
    rw [tallies.written, fair.written, List.append_assoc]
  have suffix : fresh ++ events <:+ total := by
    rw [written] at inside
    exact List.suffix_append_self_iff.mp inside
  have apart (e : EntId) (which : e = i ∨ e = j) : ¬Left s s' e := by
    intro left
    obtain ⟨ev, member, leaver⟩ := left.leaver tallies.written
    have stay := interval.stay ev (suffix.subset (List.mem_append_left _ member))
    rcases which with rfl | rfl
    · exact stay.1 leaver
    · exact stay.2 leaver
  have placed (e : EntId) (which : e = i ∨ e = j) (seat : s.view.seated e ∧ s.view.sfq e = q) :
      s'.view.seated e ∧ s'.view.sfq e = q := by
    obtain ⟨seated, place⟩ := (stays e seat.1).resolve_left (apart e which)
    exact ⟨seated, place.trans seat.2⟩
  have held (e : EntId) (which : e = i ∨ e = j) (seat : s.view.seated e ∧ s.view.sfq e = q) : ¬Loose s s' e := by
    rintro (off | left)
    · exact Bool.noConfusion (off.symm.trans seat.1.1)
    · exact apart e which left
  have vruntime (e : EntId) (which : e = i ∨ e = j) (seat : s.view.seated e ∧ s.view.sfq e = q)
      (before : s.books.vruntime e = start.books.vruntime e + BitVec.ofNat 64 (earned e events)) :
      s'.books.vruntime e = start.books.vruntime e + BitVec.ofNat 64 (earned e (fresh ++ events)) := by
    rw [tallies.vruntime e (held e which seat), before, BitVec.add_assoc, ← BitVec.ofNat_add, earned_append, Nat.add_comm]
  have silent : ∀ ev ∈ fresh, ev.picked q = none := fun ev member => tallies.unpicked ev member q
  have last : lastPick q (fresh ++ events) = lastPick q events := lastPick_append silent
  refine ⟨_, written, placed i (.inl rfl) fair.ahead, placed j (.inr rfl) fair.behind,
    vruntime i (.inl rfl) fair.ahead fair.charged, vruntime j (.inr rfl) fair.behind fair.follows, ?_, ?_, ?_⟩
  · intro events' part
    rcases List.suffix_or_suffix_of_suffix part (List.suffix_append fresh events) with older | ⟨newer, rfl⟩
    · exact fair.fair events' older
    · obtain ⟨rest, split⟩ : newer <:+ fresh := List.suffix_append_self_iff.mp part
      rw [lead_append]
      by_cases runs : s.view.curr q = some i
      · have since : sincePick q (newer ++ events) = newer ++ sincePick q events :=
          sincePick_append fun ev member => silent ev (split ▸ List.mem_append_right _ member)
        have little := interval.increase (newer ++ events) (part.trans suffix)
        rw [since, earned_append] at little
        have before := fair.rooted (fair.current runs)
        omega
      · have nothing : earned i fresh = 0 := by
          refine tallies.idle forks i (held i (.inl rfl) fair.ahead) fun p current => ?_
          have place : s.view.sfq i = p := ((core.curr p i).mp current).2
          rw [← place, fair.ahead.2] at current
          exact runs current
        rw [← split, earned_append] at nothing
        have before := fair.fair events List.suffix_rfl
        omega
  · intro recent
    rw [last] at recent
    rw [lead_append, sincePick_append silent, earned_append]
    have before := fair.rooted recent
    omega
  · intro current
    rw [last]
    rcases dispatched q i current with still | ⟨ev, member, activated⟩
    · exact fair.current still
    · obtain ⟨newer, older, split⟩ := List.append_of_mem member
      have dispatch := interval.dispatch ev (older ++ events) (List.IsSuffix.trans ⟨newer, by rw [split]; simp⟩ suffix) activated
      have recent := lastPick_recent dispatch
      rwa [lastPick_append fun ev there => silent ev (by rw [split]; simp [there])] at recent

theorem step (fair : Fair q i j bound D start s events) (interval : Interval q i j G D start total) (above : G ≤ bound)
    (positive : C.positive) (forks : C.forks) (inv : Inv C s L d) (micro : Micro C s s')
    (order : (s.books.seq q).Pairwise s.books.Precedes) (near : s.books.Near q) (led : s.led)
    (inside : s'.books.journal <:+ total ++ start.books.journal) :
    ∃ events', Fair q i j bound D start s' events' := by
  rcases (micro.booked positive inv).tallied with ⟨p, e, run, vacant⟩ | ⟨fresh, tallies, dispatched⟩
  · exact fair.pick interval inv.core vacant order near led above run inside
  · exact fair.tally interval inv.core forks tallies dispatched (fun e seated => micro.stays positive inv seated) inside

end Fair

/-- Nothing is ever struck out of the journal. -/
theorem Path.suffix (positive : C.positive) (path : Path C s s') : s.books.journal <:+ s'.books.journal := by
  induction path with
  | refl => exact List.suffix_rfl
  | step inv micro _ ih =>
    refine List.IsSuffix.trans ?_ ih
    rcases (micro.booked positive inv).tallied with ⟨p, e, run, _⟩ | ⟨fresh, tallies, _⟩
    · obtain ⟨_, _, _, _, books⟩ := pickNextEntity_written run
      rw [books]
      exact List.suffix_cons ..
    · rw [tallies.written]
      exact List.suffix_append ..

theorem Path.fair {bound : Int} (path : Path C s s') (interval : Interval q i j G D start total) (above : G ≤ bound)
    (positive : C.positive) (forks : C.forks) (ends : s'.books.journal = total ++ start.books.journal)
    (window : s'.books.WindowedOn q) (order : (s.books.seq q).Pairwise s.books.Precedes) (near : s.books.Near q) (led : s.led)
    (fair : Fair q i j bound D start s events) : Fair q i j bound D start s' total := by
  induction path generalizing events with
  | refl =>
    have same : events = total := List.append_cancel_right (fair.written.symm.trans ends)
    exact same ▸ fair
  | step inv micro rest ih =>
    have sorts := (micro.booked positive inv).sorts (q := q) forks
    have earlier := (rest.sorts (q := q) positive forks).window window
    obtain ⟨events', fair'⟩ :=
      fair.step interval above positive forks inv micro order near led (ends ▸ rest.suffix positive)
    exact ih ends window (sorts.kept earlier order) (sorts.near earlier near) (micro.leads.kept led) fair'

end steps

section bound
variable {k : Kernel} {tun : Tunables} {before after : List Op} {s₀ s : State} {q : Gid} {i j : EntId} {G D : Nat}
  {events : List Event}

theorem Runs.ran {C : Conds} {ops : List Op} (runs : Runs C k tun ops s) : run k tun ops = some s := by
  induction runs with
  | boot start => exact Option.bind_eq_some_iff.mpr ⟨_, start, rfl⟩
  | op _ _ step ih =>
    obtain ⟨a, boot, steps⟩ := Option.bind_eq_some_iff.mp ih
    refine Option.bind_eq_some_iff.mpr ⟨a, boot, ?_⟩
    rw [runFrom, List.foldlM_append]
    exact Option.bind_eq_some_iff.mpr ⟨_, steps, by simpa using step⟩

/-- A run goes on from any state it has reached. -/
theorem Runs.onward {C : Conds} {ops : List Op} (whole : Runs C k tun ops s) (ran₀ : run k tun before = some s₀)
    (split : ops = before ++ after) : Runs C k tun before s₀ ∧ Path C s₀ s := by
  induction whole generalizing after with
  | boot start =>
    obtain ⟨rfl, rfl⟩ := List.append_eq_nil_iff.mp split.symm
    have same := Option.some.inj (ran₀.symm.trans (Runs.boot (C := C) start).ran)
    exact ⟨same ▸ .boot start, same ▸ .refl _⟩
  | op earlier meets step ih =>
    rcases List.eq_nil_or_concat after with rfl | ⟨rest, last, rfl⟩
    · have runs := Runs.op earlier meets step
      rw [split, List.append_nil] at runs
      have same := Option.some.inj (ran₀.symm.trans runs.ran)
      exact ⟨same ▸ runs, same ▸ .refl _⟩
    · rw [List.concat_eq_append, ← List.append_assoc] at split
      obtain ⟨rfl, _⟩ := List.append_inj' split rfl
      obtain ⟨runs, path⟩ := ih rfl
      exact ⟨runs, path.trans (step_reached earlier.settled meets step).1⟩

/-- `i` is never further ahead of `j` than it was at first, or than `wakeup_gran` lets a chosen entity be, and what it
earns from one choice to the next. -/
theorem fairness_bound (k : Kernel) (tun : Tunables) (before after : List Op) (s₀ s : State) (q : Gid) (i j : EntId)
    (G D : Nat) (events : List Event) (ran₀ : run k tun before = some s₀) (ran : run k tun (before ++ after) = some s)
    (asked : ∀ g, g ≠ 0 → Op.setShares g 0 ∉ before ++ after)
    (kept : ∀ earlier p newProc stale later a, before ++ after = earlier ++ .fork p newProc stale :: later →
      run k tun earlier = some a → ¬forkSwapsQueued a p newProc stale)
    (window : s.books.WindowedOn q) (ahead : s₀.joinedTo q i) (behind : s₀.joinedTo q j)
    (written : s.journal = events ++ s₀.journal) (interval : Interval q i j G D s₀ events) :
    (∀ events', events' <:+ events →
      s₀.lead i j events' ≤ max (sdiff (s₀.ent i).vruntime (s₀.ent j).vruntime) G + D) ∧
    sdiff (s.ent i).vruntime (s.ent j).vruntime = s₀.lead i j events := by
  obtain ⟨runs, path⟩ := (run_sorting ran asked kept).onward ran₀ rfl
  have earlier := (path.sorts (q := q) trivial trivial).window window
  have sorts := runs.path.sorts (q := q) trivial trivial
  have near : (bootQueues k tun).books.Near q := ⟨0, fun e member => absurd member (List.not_mem_nil)⟩
  have now : s₀.lead i j [] = sdiff (s₀.ent i).vruntime (s₀.ent j).vruntime := by
    simp [State.lead]
  have start : Fair q i j (max (sdiff (s₀.ent i).vruntime (s₀.ent j).vruntime) G) D s₀ s₀ [] := by
    refine ⟨rfl, ⟨⟨ahead.1, ahead.2.1⟩, ahead.2.2⟩, ⟨⟨behind.1, behind.2.1⟩, behind.2.2⟩, (BitVec.add_zero _).symm,
      (BitVec.add_zero _).symm, fun events' part => ?_, fun _ => ?_, fun _ => .inl rfl⟩
    · rw [List.suffix_nil.mp part, now]
      omega
    · rw [now]
      exact (le_max_left ..).trans (Int.le_add_of_nonneg_right (Int.natCast_nonneg _))
  have fair := path.fair interval (le_max_right ..) trivial trivial written window
    (sorts.kept earlier (bootQueues_ordered k tun q)) (sorts.near earlier near) runs.led start
  refine ⟨fair.fair, ?_⟩
  have here := interval.window events List.suffix_rfl
  change sdiff (s.books.vruntime i) (s.books.vruntime j) = _
  rw [fair.charged, fair.follows]
  exact sdiff_earned here.1 here.2

/-- What a run has written down since it was in some state. -/
def State.since (s s₀ : State) : List Event := s.journal.take (s.journal.length - s₀.journal.length)

theorem run_since (ran₀ : run k tun before = some s₀) (ran : run k tun (before ++ after) = some s)
    (asked : ∀ g, g ≠ 0 → Op.setShares g 0 ∉ before ++ after) : s.journal = s.since s₀ ++ s₀.journal := by
  have path := ((run_shared ran asked).onward ran₀ rfl).2
  exact (List.suffix_iff_eq_append.mp (path.suffix trivial)).symm

end bound

/-- The running thread has a child, which waits. -/
def runnerAndChild : List Op := [.prio 0 200, .fork 0 false {}, .add 2]

theorem fairness_bound_runner :
    ∃ s₀ s, run plainKernel {} runnerAndChild = some s₀ ∧ run plainKernel {} (runnerAndChild ++ [.tick, .switch 0]) = some s ∧
      sdiff (s.ent (.thread 0)).vruntime (s.ent (.thread 2)).vruntime = s₀.lead (.thread 0) (.thread 2) (s.since s₀) := by
  have result : ((run plainKernel {} runnerAndChild).bind fun s₀ =>
      (run plainKernel {} (runnerAndChild ++ [.tick, .switch 0])).map fun s =>
        (decide s.books.Windowed, decide (s₀.joinedTo 0 (.thread 0)), decide (s₀.joinedTo 0 (.thread 2)),
          decide (Interval 0 (.thread 0) (.thread 2) 650000 2000 s₀ (s.since s₀)))) = some (true, true, true, true) := by
    decide +kernel
  obtain ⟨s₀, ran₀, result⟩ := Option.bind_eq_some_iff.mp result
  obtain ⟨s, ran, values⟩ := Option.map_eq_some_iff.mp result
  simp only [Prod.mk.injEq, decide_eq_true_eq] at values
  obtain ⟨window, ahead, behind, interval⟩ := values
  have asked : ∀ g, g ≠ 0 → Op.setShares g 0 ∉ runnerAndChild ++ [.tick, .switch 0] := by
    simp [runnerAndChild]
  have kept (earlier : List Op) (p : Tid) (newProc : Bool) (stale : SchedEntity) (later : List Op) (a : State)
      (split : runnerAndChild ++ [.tick, .switch 0] = earlier ++ .fork p newProc stale :: later)
      (there : run plainKernel {} earlier = some a) : ¬forkSwapsQueued a p newProc stale := by
    rintro ⟨_, queued, _⟩
    have only : p = 0 ∧ earlier = [.prio 0 200] := by
      rcases earlier with _ | ⟨one, _ | ⟨two, _ | ⟨three, _ | ⟨four, _ | ⟨five, rest⟩⟩⟩⟩⟩ <;>
        first | done | (simp [runnerAndChild] at split ⊢ <;> grind)
    have off : (run plainKernel {} [.prio 0 200]).map (fun a => (a.ent (.thread 0)).onSfq) = some false := by decide +kernel
    rw [only.2] at there
    rw [there, only.1.symm] at off
    have rests : (a.ent (.thread p)).onSfq = false := Option.some.inj off
    exact Bool.noConfusion (rests.symm.trans queued)
  exact ⟨s₀, s, ran₀, ran, (fairness_bound plainKernel {} _ _ s₀ s 0 (.thread 0) (.thread 2) 650000 2000 _ ran₀ ran asked kept
    (window.on 0) ahead behind (run_since ran₀ ran asked) interval).2⟩

end SfqSched
