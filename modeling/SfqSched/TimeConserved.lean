import SfqSched.Booked
import SfqSched.Membership
import Mathlib.Data.BitVec
import Mathlib.Tactic.Ring

namespace SfqSched
open State Function

namespace Event

/-- The time of a charge, if `counts` counts it. -/
def spent (counts : Gid → EntId → Bool) : Event → BitVec 64
  | .charge q e exec _ _ => if counts q e then exec else 0
  | _ => 0

/-- A dispatch or a release of a thread of `pss_class`. -/
def turn : Event → Bool
  | .dispatched .. | .released .. => true
  | _ => false

theorem Quiet.spent {ev : Event} (quiet : ev.Quiet) (counts : Gid → EntId → Bool) : ev.spent counts = 0 := by
  cases ev <;> first | rfl | exact quiet.elim

theorem Quiet.turn {ev : Event} (quiet : ev.Quiet) : ev.turn = false := by
  cases ev <;> first | rfl | exact quiet.elim

end Event

namespace Books

/-- All the time charged so far that `counts` counts. -/
def spent (b : Books) (counts : Gid → EntId → Bool) : BitVec 64 := (b.journal.map (Event.spent counts)).sum

/-- What was charged to entities while they were current on `q`. -/
def memberTime (b : Books) (q : Gid) : BitVec 64 := b.spent fun p _ => decide (p = q)

/-- What was charged to `e`. -/
def ownTime (b : Books) (e : EntId) : BitVec 64 := b.spent fun _ x => decide (x = e)

/-- The dispatches and releases so far, newest first. -/
def turns (b : Books) : List Event := b.journal.filter Event.turn

end Books

namespace Entries
variable {o : Prop} {c : Gid → Option EntId} {n : EntId → Prop} {s s' : State} {q : Gid} {e : EntId}

theorem turns (h : Entries o c n s s') : s'.books.turns = s.books.turns := by
  induction h with
  | trans _ _ ih ih' => exact ih'.trans ih
  | still fresh written quiet =>
    have none_left : fresh.filter Event.turn = [] :=
      List.filter_eq_nil_iff.mpr fun ev member => by simp [(quiet ev member).turn]
    unfold Books.turns
    rw [written, List.filter_append, none_left, List.nil_append]
  | charge q e w _ _ paid =>
    rw [paid]
    rfl
  | insert q e run =>
    obtain ⟨_, _, _, _, _, new, _⟩ := rawEnqueueEntity_spec _ _ _ run
    rw [new]
    rfl

/-- A charge adds to the sum of an entity what it adds to the time of its last charge. -/
theorem owed (h : Entries o c n s s') (current : c q = some e) :
    s'.books.sumExec e - s'.books.timingStart e = s.books.sumExec e - s.books.timingStart e := by
  induction h with
  | trans _ _ ih ih' => exact ih'.trans ih
  | still _ _ _ _ _ times => rw [(times q e current).1, (times q e current).2]
  | charge p x w _ _ paid =>
    rw [paid]
    simp only [Books.charge]
    by_cases here : e = x
    · subst here
      simp only [update_self]
      ring
    · simp only [update_of_ne here]
  | insert p x run =>
    obtain ⟨_, _, _, _, _, new, _⟩ := rawEnqueueEntity_spec _ _ _ run
    rw [new]

/-- Where the charges counted are those of one current entity, they add up to its times. -/
theorem counted (h : Entries o c n s s') (counts : Gid → EntId → Bool) (current : c q = some e)
    (agree : ∀ p x, c p = some x → (counts p x ↔ x = e)) :
    s'.books.spent counts - s'.books.timingStart e = s.books.spent counts - s.books.timingStart e := by
  induction h with
  | trans _ _ ih ih' => exact ih'.trans ih
  | still fresh written quiet _ _ times =>
    have nothing : (fresh.map (Event.spent counts)).sum = 0 :=
      List.sum_eq_zero fun x member => by
        obtain ⟨ev, there, rfl⟩ := List.mem_map.mp member
        exact (quiet ev there).spent counts
    unfold Books.spent
    rw [written, List.map_append, List.sum_append, nothing, zero_add, (times q e current).1]
  | charge p x w charged _ paid =>
    rw [paid]
    simp only [Books.spent, Books.charge, List.map_cons, List.sum_cons, Event.spent]
    by_cases here : e = x
    · subst here
      rw [if_pos ((agree p e charged).mpr rfl), update_self]
      ring
    · rw [if_neg fun counted => here ((agree p x charged).mp counted).symm, update_of_ne here, zero_add]
  | insert p x run =>
    obtain ⟨_, _, _, _, _, new, _⟩ := rawEnqueueEntity_spec _ _ _ run
    rw [new]
    simp [Books.spent, Event.spent]

/-- Where none of the charges are counted, nothing is added. -/
theorem uncounted (h : Entries o c n s s') (counts : Gid → EntId → Bool) (none : ∀ p x, c p = some x → counts p x = false) :
    s'.books.spent counts = s.books.spent counts := by
  induction h with
  | trans _ _ ih ih' => exact ih'.trans ih
  | still fresh written quiet =>
    have nothing : (fresh.map (Event.spent counts)).sum = 0 :=
      List.sum_eq_zero fun x member => by
        obtain ⟨ev, there, rfl⟩ := List.mem_map.mp member
        exact (quiet ev there).spent counts
    unfold Books.spent
    rw [written, List.map_append, List.sum_append, nothing, zero_add]
  | charge p x w charged _ paid =>
    rw [paid]
    simp [Books.spent, Books.charge, Event.spent, none p x charged]
  | insert p x run =>
    obtain ⟨_, _, _, _, _, new, _⟩ := rawEnqueueEntity_spec _ _ _ run
    rw [new]
    simp [Books.spent, Event.spent]

end Entries

/-- Every release follows the dispatch of its thread, and adds to each entity of the chain the time in between. -/
def Settles (turns : List Event) : Prop :=
  ∀ newer t chain' c' older, turns = newer ++ .released t chain' c' :: older →
    ∃ chain c rest, older = .dispatched t chain c :: rest ∧
      ∀ e x', (e, x') ∈ chain' ↔ ∃ x, (e, x) ∈ chain ∧ x' = x + (c' - c)

/-- The books while `c` tells which entities are current. -/
structure Ledger (c : Gid → Option EntId) (b : Books) : Prop where
  settles : Settles b.turns
  running : ∀ q e, c q = some e → ∃ t chain at_dispatch rest, b.turns = .dispatched t chain at_dispatch :: rest ∧
    (∃ p, c p = some (.thread t)) ∧
    ∀ e x, (e, x) ∈ chain ↔ (∃ p, c p = some e) ∧ b.sumExec e - b.timingStart e = x - at_dispatch
  member : ∀ q e, 0 < q → c q = some e → (∃ p, c p = some (.group q)) ∧
    b.memberTime q - b.timingStart e = b.ownTime (.group q) - b.timingStart (.group q)
  idle : ∀ q, 0 < q → c q = none → (∀ p, c p ≠ some (.group q)) ∧ b.memberTime q = b.ownTime (.group q)

namespace Ledger
variable {o : Prop} {c : Gid → Option EntId} {n : EntId → Prop} {s s' : State}

theorem entries (ledger : Ledger c s.books) (h : Entries o c n s s') (once : ∀ p q e, c p = some e → c q = some e → p = q) :
    Ledger c s'.books := by
  have own {q : Gid} {e : EntId} (current : c q = some e) :
      s'.books.ownTime e - s'.books.timingStart e = s.books.ownTime e - s.books.timingStart e :=
    h.counted _ current fun p x _ => by simp
  refine ⟨?_, fun q e current => ?_, fun q e above current => ?_, fun q above vacant => ?_⟩
  · rw [h.turns]
    exact ledger.settles
  · obtain ⟨t, chain, start, rest, turns, thread, times⟩ := ledger.running q e current
    refine ⟨t, chain, start, rest, h.turns.trans turns, thread, fun e x => (times e x).trans ?_⟩
    refine and_congr_right fun ⟨p, there⟩ => ?_
    rw [h.owed there]
  · obtain ⟨⟨p, group⟩, same⟩ := ledger.member q e above current
    refine ⟨⟨p, group⟩, ?_⟩
    have members : s'.books.memberTime q - s'.books.timingStart e = s.books.memberTime q - s.books.timingStart e := by
      refine h.counted _ current fun p x there => ?_
      rw [decide_eq_true_eq]
      constructor
      · rintro rfl
        exact Option.some.inj (there.symm.trans current)
      · rintro rfl
        exact once p q x there current
    rw [members, own group]
    exact same
  · obtain ⟨away, same⟩ := ledger.idle q above vacant
    refine ⟨away, ?_⟩
    have members : s'.books.memberTime q = s.books.memberTime q := by
      refine h.uncounted _ fun p x there => decide_eq_false ?_
      rintro rfl
      cases vacant.symm.trans there
    have owned : s'.books.ownTime (.group q) = s.books.ownTime (.group q) := by
      refine h.uncounted _ fun p x there => decide_eq_false ?_
      rintro rfl
      exact away p there
    rw [members, owned]
    exact same

theorem clock (ledger : Ledger c s.books) : Ledger c (updateRqClock s).books :=
  ⟨ledger.settles, ledger.running, ledger.member, ledger.idle⟩

theorem mem_execTimes {chain : List EntId} {e : EntId} {x : BitVec 64} :
    (e, x) ∈ execTimes s chain ↔ e ∈ chain ∧ x = s.books.sumExec e := by
  unfold execTimes
  rw [List.mem_map]
  constructor
  · rintro ⟨y, member, same⟩
    cases same
    exact ⟨member, rfl⟩
  · rintro ⟨member, rfl⟩
    exact ⟨e, member, rfl⟩

/-- A choice of `pick_next_entity` charges nobody and is no turn. -/
theorem picked {q : Gid} {e : EntId} (ledger : Ledger c s.books) (run : pickNextEntity s q = some (e, s')) : Ledger c s'.books := by
  obtain ⟨_, _, _, _, written⟩ := pickNextEntity_written run
  have sums (counts : Gid → EntId → Bool) : s'.books.spent counts = s.books.spent counts := by
    rw [written]
    simp [Books.spent, Event.spent]
  have times : s'.books.sumExec = s.books.sumExec ∧ s'.books.timingStart = s.books.timingStart := by
    rw [written]
    exact ⟨rfl, rfl⟩
  have turns : s'.books.turns = s.books.turns := by
    rw [written]
    rfl
  refine ⟨?_, ?_, ?_, ?_⟩
  · rw [turns]
    exact ledger.settles
  · rw [turns, times.1, times.2]
    exact ledger.running
  · unfold Books.memberTime Books.ownTime
    simp only [sums, times.2]
    exact ledger.member
  · unfold Books.memberTime Books.ownTime
    simp only [sums]
    exact ledger.idle

/-- When the whole chain has been charged, what a release notes down is what the dispatch noted
down and the time in between, and members and groups are even. -/
theorem release {t : Tid} {chain : List EntId} (ledger : Ledger c s.books) (now : ∀ e ∈ chain, s.books.timingStart e = s.books.clock)
    (current : ∀ e, e ∈ chain ↔ ∃ q, c q = some e) (thread : ∀ u, .thread u ∈ chain ↔ u = t) :
    Ledger (fun _ => none) (s.emit (.released t (execTimes s chain) s.rq.clockThread)).books := by
  have turns : (s.emit (.released t (execTimes s chain) s.rq.clockThread)).books.turns =
      .released t (execTimes s chain) s.rq.clockThread :: s.books.turns := rfl
  have sums (counts : Gid → EntId → Bool) : (s.emit (.released t (execTimes s chain) s.rq.clockThread)).books.spent counts =
      s.books.spent counts := by
    simp [books_emit, Books.spent, Event.spent]
  refine ⟨?_, nofun, nofun, fun q above _ => ⟨nofun, ?_⟩⟩
  · rw [turns]
    intro newer u chain' c' older split
    rcases List.cons_eq_append_iff.mp split with ⟨rfl, first⟩ | ⟨rest, rfl, split⟩
    · obtain ⟨⟨rfl, rfl, rfl⟩, rfl⟩ : (u = t ∧ chain' = execTimes s chain ∧ c' = s.rq.clockThread) ∧ older = s.books.turns := by
        simpa using first
      obtain ⟨p, there⟩ := (current _).mp ((thread u).mpr rfl)
      obtain ⟨v, chain₀, start, rest, last, ⟨r, mine⟩, times⟩ := ledger.running p _ there
      have same : v = u := (thread v).mp ((current _).mpr ⟨r, mine⟩)
      subst same
      refine ⟨chain₀, start, rest, last, fun e x' => ?_⟩
      rw [mem_execTimes]
      constructor
      · rintro ⟨member, rfl⟩
        have owed : s.books.sumExec e - s.books.timingStart e =
            s.books.sumExec e - s.books.timingStart e + start - start := by ring
        refine ⟨_, (times e _).mpr ⟨(current e).mp member, owed⟩, ?_⟩
        rw [now e member]
        change _ = _ + (s.books.clock - start)
        ring
      · rintro ⟨x, member, rfl⟩
        obtain ⟨isCurrent, owed⟩ := (times e x).mp member
        have inside := (current e).mpr isCurrent
        refine ⟨inside, ?_⟩
        rw [now e inside] at owed
        change x + (s.books.clock - start) = _
        rw [← sub_add_cancel (s.books.sumExec e) s.books.clock, owed]
        ring
    · exact ledger.settles rest u chain' c' older (List.cons.inj split).2
  · change Books.spent _ _ = Books.spent _ _
    rw [sums, sums]
    cases onIt : c q with
    | none => exact (ledger.idle q above onIt).2
    | some e =>
      obtain ⟨⟨p, group⟩, same⟩ := ledger.member q e above onIt
      rw [now e ((current e).mpr ⟨q, onIt⟩), now (.group q) ((current _).mpr ⟨p, group⟩)] at same
      exact sub_left_injective same

/-- When the times of a whole chain start now, a dispatch leaves members and groups even. -/
theorem dispatch {t : Tid} {chain : List EntId} {place : EntId → Gid} {b : Books} (ledger : Ledger (fun _ => none) s.books)
    (now : ∀ e ∈ chain, s.books.timingStart e = s.books.clock)
    (current : ∀ q e, c q = some e ↔ e ∈ chain ∧ place e = q) (thread : .thread t ∈ chain)
    (up : ∀ e ∈ chain, 0 < place e → .group (place e) ∈ chain) (down : ∀ q, .group q ∈ chain → ∃ e ∈ chain, place e = q)
    (books : b = { s.books with
      journal := .dispatched t (execTimes s chain) s.rq.clockThread :: s.books.journal }) : Ledger c b := by
  have sums (counts : Gid → EntId → Bool) : b.spent counts = s.books.spent counts := by
    rw [books]
    simp [Books.spent, Event.spent]
  have turns : b.turns = .dispatched t (execTimes s chain) s.rq.clockThread :: s.books.turns := by
    rw [books]
    rfl
  have timing : b.timingStart = s.books.timingStart := by rw [books]
  have sumExec : b.sumExec = s.books.sumExec := by rw [books]
  refine ⟨?_, fun q e onIt => ?_, fun q e above onIt => ?_, fun q above vacant => ?_⟩
  · rw [turns]
    intro newer u chain' c' older split
    rcases List.cons_eq_append_iff.mp split with ⟨_, first⟩ | ⟨rest, rfl, split⟩
    · cases first
    · exact ledger.settles rest u chain' c' older (List.cons.inj split).2
  · refine ⟨t, _, _, _, turns, ⟨_, (current _ _).mpr ⟨thread, rfl⟩⟩, fun e x => ?_⟩
    rw [mem_execTimes, timing, sumExec]
    constructor
    · rintro ⟨member, rfl⟩
      refine ⟨⟨_, (current _ _).mpr ⟨member, rfl⟩⟩, ?_⟩
      rw [now e member]
      rfl
    · rintro ⟨⟨p, there⟩, owed⟩
      have member := ((current _ _).mp there).1
      rw [now e member] at owed
      exact ⟨member, (sub_left_injective owed).symm⟩
  · obtain ⟨member, rfl⟩ := (current _ _).mp onIt
    have group := up e member above
    refine ⟨⟨_, (current _ _).mpr ⟨group, rfl⟩⟩, ?_⟩
    change b.spent _ - _ = b.spent _ - _
    rw [sums, sums, timing, now e member, now _ group]
    exact congrArg (· - s.books.clock) (ledger.idle _ above rfl).2
  · refine ⟨fun p there => ?_, ?_⟩
    · obtain ⟨e, member, place⟩ := down q ((current _ _).mp there).1
      cases vacant.symm.trans ((current q e).mpr ⟨member, place⟩)
    · change b.spent _ = b.spent _
      rw [sums, sums]
      exact (ledger.idle q above rfl).2

end Ledger

namespace Chain
variable {α : Type} {parent : α → Option α} {a b : α} {l : List α} {o : Option α}

/-- A chain goes on to the parents of its nodes. -/
theorem up (h : Chain parent o l) (member : a ∈ l) (above : parent a = some b) : b ∈ l := by
  induction h with
  | root => cases member
  | @link x l rest ih =>
    rcases List.mem_cons.mp member with rfl | member
    · rw [above] at rest
      cases rest
      exact List.mem_cons_of_mem _ (List.mem_cons_self ..)
    · exact List.mem_cons_of_mem _ (ih member)

/-- All nodes of a chain but the first are parents of others. -/
theorem down (h : Chain parent o l) (member : b ∈ l) : o = some b ∨ ∃ a ∈ l, parent a = some b := by
  induction h with
  | root => cases member
  | @link x l rest ih =>
    rcases List.mem_cons.mp member with rfl | member
    · exact .inl rfl
    · refine .inr ?_
      rcases ih member with first | ⟨a, there, above⟩
      · exact ⟨x, List.mem_cons_self .., first⟩
      · exact ⟨a, List.mem_cons_of_mem _ there, above⟩

end Chain

/-- The books are right, and no current entity that has left its queue owes any time. -/
structure Conserved (s : State) : Prop where
  ledger : Ledger s.view.curr s.books
  settled : ∀ q e, s.view.curr q = some e → s.view.joined e = false → s.books.timingStart e = s.books.clock

section runs
variable {C : Conds} {s s' : State} {L : List EntId} {d : Option EntId}

theorem thread_listed (hier : s.view.Hier) (t u : Tid) : .thread u ∈ walkup s (some (.thread t)) ↔ u = t := by
  obtain ⟨rest, eq, _, _, groups⟩ := thread_chain hier t
  rw [eq]
  constructor
  · intro member
    rcases List.mem_cons.mp member with same | above
    · exact EntId.thread.inj same
    · obtain ⟨g, never⟩ := groups _ above
      cases never
  · rintro rfl
    exact List.mem_cons_self ..

theorem Booked.conserved (inv : Inv C s L d) (step : Booked C s s') (h : Conserved s) : Conserved s' := by
  have once (p q : Gid) (e : EntId) (there : s.view.curr p = some e) (here : s.view.curr q = some e) : p = q :=
    ((inv.core.curr p e).mp there).2.symm.trans ((inv.core.curr q e).mp here).2
  cases step with
  | entries entered curr settled =>
    refine ⟨?_, fun q e current apart => ?_⟩
    · rw [curr]
      exact h.ledger.entries entered once
    · rw [curr] at current
      rcases settled q e current with stays | now
      · refine entered.charged current (h.settled q e current ?_)
        by_contra joined
        exact Bool.noConfusion (apart.symm.trans (stays (by simpa using joined)))
      · exact now
  | timed a before after curr joined =>
    refine ⟨?_, fun q e current apart => ?_⟩
    · rw [curr]
      exact ((h.ledger.entries before once).clock).entries after once
    · rw [curr] at current
      exact Bool.noConfusion (apart.symm.trans (joined q e current))
  | picked q e run vacant =>
    have curr : s'.view.curr = s.view.curr := by rw [pickNextEntity_view run]
    refine ⟨?_, fun p x current => ?_⟩
    · rw [curr]
      exact h.ledger.picked run
    · rw [curr, vacant p] at current
      cases current
  | released t a inv entered curr charged run =>
    have listed (e : EntId) : e ∈ walkup s (some (.thread t)) ↔ ∃ q, s.view.curr q = some e := by
      constructor
      · intro member
        exact ⟨_, (inv.core.curr _ e).mpr ⟨member, rfl⟩⟩
      · rintro ⟨q, current⟩
        exact ((inv.core.curr q e).mp current).1
    have now (e : EntId) (member : e ∈ walkup s (some (.thread t))) : a.books.timingStart e = a.books.clock := by
      by_cases joined : s.view.joined e
      · exact charged e member joined
      · obtain ⟨q, current⟩ := (listed e).mp member
        exact entered.charged current (h.settled q e current (by simpa using joined))
    have vacant : s'.view.curr = fun _ => none := funext curr
    refine ⟨?_, fun q e current => ?_⟩
    · rw [vacant, run]
      exact (h.ledger.entries entered once).release now listed (thread_listed inv.core.hier t)
    · rw [vacant] at current
      cases current
  | dispatched t a hier vacant entered joined curr started activated books =>
    have links := hier.chain (e := .thread t) (Nat.lt_succ_self _)
    have none_there : s.view.curr = fun _ => none := funext vacant
    have ledger : Ledger (fun _ => none) a.books := (none_there ▸ h.ledger).entries entered (by simp)
    refine ⟨ledger.dispatch started curr ((thread_listed hier t t).mpr rfl) (fun e member above => ?_) (fun q member => ?_) books,
      fun q e current apart => ?_⟩
    · refine links.up member ?_
      rw [hier.link, seOf, if_neg above.ne']
    · rcases links.down member with never | ⟨e, there, above⟩
      · cases never
      · have same := (hier.parent_some above).2.2
        exact ⟨e, there, (EntId.group.inj same).symm⟩
    · exact Bool.noConfusion (apart.symm.trans (joined e ((curr q e).mp current).1))

theorem Path.conserved (positive : C.positive) (h : Path C s s') (before : Conserved s) : Conserved s' := by
  induction h with
  | refl => exact before
  | step inv micro _ ih => exact ih ((micro.booked positive inv).conserved inv before)

theorem bootQueues_conserved (k : Kernel) (tun : Tunables) : Conserved (bootQueues k tun) := by
  refine ⟨⟨?_, nofun, nofun, fun q above _ => ⟨nofun, rfl⟩⟩, nofun⟩
  intro newer t chain' c' older split
  exact absurd split (by simp [Books.turns, bootQueues, bootMemory, setThreadRq, setThreadWeight, State.books, State.modEnt])

end runs

/-- While a thread of `pss_class` runs, every entity of its chain is charged the time from its
dispatch to its release, and what is charged to a group is what is charged to its members. -/
theorem cpu_time_conserved (k : Kernel) (tun : Tunables) (ops : List Op) (s : State) (ran : run k tun ops = some s)
    (asked : ∀ g, g ≠ 0 → Op.setShares g 0 ∉ ops) :
    (∀ newer t chain' c' older, s.books.turns = newer ++ .released t chain' c' :: older →
      ∃ chain c rest, older = .dispatched t chain c :: rest ∧
        ∀ e x', (e, x') ∈ chain' ↔ ∃ x, (e, x) ∈ chain ∧ x' = x + (c' - c)) ∧
    ∀ g, 0 < g → (s.sfq g).curr = none → s.books.ownTime (.group g) = s.books.memberTime g := by
  have conserved := (run_shared ran asked).path.conserved trivial (bootQueues_conserved k tun)
  exact ⟨conserved.ledger.settles, fun g above vacant => (conserved.ledger.idle g above vacant).2.symm⟩

/-- A thread in a group below the root runs for a while and sleeps. -/
def groupedRunner : List Op := groupedWaiter ++ [.sleep 0, .tick, .tick, .sleep 0]

theorem cpu_time_conserved_grouped :
    ∃ s, run plainKernel {} groupedRunner = some s ∧ s.books.ownTime (.group 1) = s.books.memberTime 1 := by
  have result : (run plainKernel {} groupedRunner).map (fun s => (s.sfq 1).curr) = some none := by decide +kernel
  obtain ⟨s, ran, vacant⟩ := Option.map_eq_some_iff.mp result
  exact ⟨s, ran, (cpu_time_conserved plainKernel {} groupedRunner s ran (by simp [groupedRunner, groupedWaiter])).2
    1 Nat.one_pos vacant⟩

/-- The last release and the dispatch before it: the chains with their sums, and the clock. -/
def Books.lastTurn (b : Books) : Option ((List (EntId × BitVec 64) × BitVec 64) × List (EntId × BitVec 64) × BitVec 64) :=
  match b.turns with
  | .released _ chain' c' :: .dispatched _ chain c :: _ => some ((chain', c'), chain, c)
  | _ => none

theorem Books.lastTurn_some {b : Books} {chain chain' : List (EntId × BitVec 64)} {c c' : BitVec 64}
    (last : b.lastTurn = some ((chain', c'), chain, c)) :
    ∃ t u rest, b.turns = .released t chain' c' :: .dispatched u chain c :: rest := by
  unfold Books.lastTurn at last
  split at last
  · rename_i split
    cases last
    exact ⟨_, _, _, split⟩
  · cases last

/-- Group `2`, the one of the running thread, has a share of `0`; another thread of its parent leaves. -/
def strandedRunner : List Op :=
  [.groupCreate 0 0, .groupCreate 1 0, .fork 0 false {}, .fork 0 false {}, .groupMove 2 2, .groupMove 3 1,
    .setShares 2 0, .add 2, .add 3, .sleep 0, .schedClass 3 .realtime, .switch 0]

/-- The group above has left its queue, and is not charged when the thread leaves the CPU. -/
theorem cpu_time_lost :
    ¬ ∀ (k : Kernel) (tun : Tunables) (ops : List Op) (s : State), run k tun ops = some s →
      ∀ newer t chain' c' older, s.books.turns = newer ++ .released t chain' c' :: older →
        ∃ chain c rest, older = .dispatched t chain c :: rest ∧
          ∀ e x', (e, x') ∈ chain' ↔ ∃ x, (e, x) ∈ chain ∧ x' = x + (c' - c) := by
  intro claimed
  have released : (run plainKernel {} strandedRunner).map (fun s => s.books.lastTurn.map Prod.fst) =
      some (some ([(.thread 2, 1000), (.group 2, 1000), (.group 1, 0)], 7000)) := by decide +kernel
  have dispatched : (run plainKernel {} strandedRunner).map (fun s => s.books.lastTurn.map Prod.snd) =
      some (some ([(.thread 2, 0), (.group 2, 0), (.group 1, 0)], 6000)) := by decide +kernel
  obtain ⟨s, ran, first⟩ := Option.map_eq_some_iff.mp released
  rw [ran] at dispatched
  obtain ⟨⟨_, _⟩, last, rfl⟩ := Option.map_eq_some_iff.mp first
  rw [Option.map_some, last] at dispatched
  cases dispatched
  obtain ⟨t, u, rest, turns⟩ := Books.lastTurn_some last
  obtain ⟨chain, c, rest', older, times⟩ := claimed _ _ _ s ran [] t _ _ _ turns
  cases older
  obtain ⟨x, member, late⟩ := (times (.group 1) 0).mp (by simp)
  have none_left : x = 0 := by simpa using member
  subst none_left
  exact absurd late (by decide)

end SfqSched
