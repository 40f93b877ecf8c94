import SfqSched.Booked
import SfqSched.Leftmost
import SfqSched.WakeupSwitch

namespace SfqSched
open State Function

/-- One of the vruntimes has all of them in the half of the range that begins with it. -/
def Windowed (vruntimes : List (BitVec 64)) : Prop :=
  ∃ base ∈ vruntimes, ∀ v ∈ vruntimes, SchedTime.since base v < 2 ^ 63

instance (vruntimes : List (BitVec 64)) : Decidable (Windowed vruntimes) :=
  -- The search goes through the list, not through all 64-bit values.
  @List.decidableBEx _ (fun base => ∀ v ∈ vruntimes, SchedTime.since base v < 2 ^ 63)
    (fun base => List.decidableBAll (fun v => SchedTime.since base v < 2 ^ 63) vruntimes) vruntimes

namespace Event

/-- The entity that an insertion puts into a timeline. -/
def inserted : Event → Option EntId
  | .insert _ e _ => some e
  | _ => none

/-- An insertion met a queue all of whose vruntimes, the new one included, lie in one window. -/
def Windowed : Event → Prop
  | .insert _ _ present => SfqSched.Windowed present
  | _ => True

instance : DecidablePred Windowed
  | .insert _ _ present => inferInstanceAs (Decidable (SfqSched.Windowed present))
  | .charge .. | .place .. | .addVtime .. | .subVtime .. | .born .. | .swap .. | .join .. | .leave .. | .choose
  | .pick .. | .activate .. | .release .. | .dispatched .. | .released .. | .subtract .. => .isTrue trivial

/-- The same of an insertion into the timeline of one queue. -/
def WindowedOn (q : Gid) : Event → Prop
  | .insert p _ present => p = q → SfqSched.Windowed present
  | _ => True

theorem Windowed.on {ev : Event} (window : ev.Windowed) (q : Gid) : ev.WindowedOn q := by
  cases ev with
  | insert p e present => exact fun _ => window
  | _ => trivial

end Event

namespace Books

/-- The entities inserted into timelines so far, the newest first. -/
def insertions (b : Books) : List EntId := b.journal.filterMap Event.inserted

/-- An earlier vruntime, or the same one and an earlier insertion. -/
def Precedes (b : Books) (x y : EntId) : Prop :=
  sdiff (b.vruntime x) (b.vruntime y) < 0 ∨
    (b.vruntime x = b.vruntime y ∧ b.insertions.idxOf y < b.insertions.idxOf x)

/-- Every timeline is in order. -/
def Ordered (b : Books) : Prop := ∀ q, (b.seq q).Pairwise b.Precedes

/-- Every insertion so far met a queue whose vruntimes lie in one window. -/
def Windowed (b : Books) : Prop := ∀ ev ∈ b.journal, ev.Windowed

instance (b : Books) : Decidable b.Windowed := inferInstanceAs (Decidable (∀ ev ∈ b.journal, ev.Windowed))

/-- Every insertion into one timeline so far met vruntimes that lie in one window. -/
def WindowedOn (b : Books) (q : Gid) : Prop := ∀ ev ∈ b.journal, ev.WindowedOn q

theorem Windowed.on {b : Books} (window : b.Windowed) (q : Gid) : b.WindowedOn q :=
  fun ev member => (window ev member).on q

/-- The vruntimes in a timeline lie in one window. -/
def Near (b : Books) (q : Gid) : Prop := ∃ base, ∀ e ∈ b.seq q, SchedTime.since base (b.vruntime e) < 2 ^ 63

/-- In a window the entity that precedes another has no later vruntime. -/
theorem Precedes.le {b : Books} {x y : EntId} {base : BitVec 64} (h : b.Precedes x y)
    (hx : SchedTime.since base (b.vruntime x) < 2 ^ 63) (hy : SchedTime.since base (b.vruntime y) < 2 ^ 63) :
    SchedTime.since base (b.vruntime x) ≤ SchedTime.since base (b.vruntime y) := by
  rcases h with earlier | ⟨same, _⟩
  · rw [sdiff_window hx hy] at earlier
    omega
  · rw [same]

/-- A new insertion of another entity leaves the order of two as it is. -/
theorem Precedes.push {b b' : Books} {x y e : EntId} (h : b.Precedes x y) (vruntime : b'.vruntime = b.vruntime)
    (pushed : b'.insertions = e :: b.insertions) (hx : x ≠ e) (hy : y ≠ e) : b'.Precedes x y := by
  unfold Precedes
  rw [vruntime, pushed, List.idxOf_cons_ne _ hx.symm, List.idxOf_cons_ne _ hy.symm]
  exact h.imp id fun ⟨same, order⟩ => ⟨same, Nat.succ_lt_succ order⟩

end Books

/-- A step that keeps a timeline in order and its vruntimes in a window as long as insertions into it meet windows. -/
structure Sorts (q : Gid) (s s' : State) : Prop where
  window : s'.books.WindowedOn q → s.books.WindowedOn q
  kept : s'.books.WindowedOn q → (s.books.seq q).Pairwise s.books.Precedes → (s'.books.seq q).Pairwise s'.books.Precedes
  near : s'.books.WindowedOn q → s.books.Near q → s'.books.Near q

theorem Event.Quiet.inserted {ev : Event} (quiet : ev.Quiet) : ev.inserted = none := by
  cases ev <;> first | rfl | exact quiet.elim

namespace Sorts
variable {s s' s'' : State} {q p : Gid} {e : EntId}

theorem refl (s : State) : Sorts q s s := ⟨id, fun _ => id, fun _ => id⟩

theorem trans (h : Sorts q s s') (h' : Sorts q s' s'') : Sorts q s s'' :=
  ⟨h.window ∘ h'.window, fun window order => h'.kept window (h.kept (h'.window window) order),
    fun window near => h'.near window (h.near (h'.window window) near)⟩

/-- Nothing is inserted, and what stays in a timeline keeps its vruntime. -/
theorem still (fresh : List Event) (written : s'.books.journal = fresh ++ s.books.journal)
    (quiet : ∀ ev ∈ fresh, ev.inserted = none) (seq : (s'.books.seq q).Sublist (s.books.seq q))
    (vruntime : ∀ e ∈ s'.books.seq q, s'.books.vruntime e = s.books.vruntime e) : Sorts q s s' := by
  have same : s'.books.insertions = s.books.insertions := by
    unfold Books.insertions
    rw [written, List.filterMap_append, List.filterMap_eq_nil_iff.mpr quiet, List.nil_append]
  refine ⟨fun window ev member => window ev (written ▸ List.mem_append_right _ member), fun _ order => ?_, fun _ near => ?_⟩
  · refine List.Pairwise.imp_of_mem ?_ (order.sublist seq)
    intro x y hx hy before
    unfold Books.Precedes
    rw [same, vruntime x hx, vruntime y hy]
    exact before
  · obtain ⟨base, near⟩ := near
    refine ⟨base, fun x member => ?_⟩
    rw [vruntime x member]
    exact near x (seq.subset member)

/-- Only the clock moves. -/
theorem clock (s : State) : Sorts q s (updateRqClock s) :=
  .still [] rfl (by simp) (.refl _) fun _ _ => rfl

/-- Only an event that inserts nobody is written down. -/
theorem emit (s : State) (ev : Event) (none : ev.inserted = none) : Sorts q s (s.emit ev) :=
  .still [ev] rfl (by simpa using none) (.refl _) fun _ _ => rfl

/-- An insertion into an ordered timeline finds the place of the new entity. -/
theorem insert (run : rawEnqueueEntity s p e = some s') (out : ∀ q, e ∉ s.view.timeline q) : Sorts q s s' := by
  obtain ⟨_, _, front, back, old, new, apart⟩ := rawEnqueueEntity_spec _ _ _ run
  have written : s'.books.journal = .insert p e ((presentOn s p e).map s.books.vruntime) :: s.books.journal := by rw [new]
  have vruntime : s'.books.vruntime = s.books.vruntime := by rw [new]
  have pushed : s'.books.insertions = e :: s.books.insertions := by
    unfold Books.insertions
    rw [written]
    rfl
  have absent (x : EntId) (member : x ∈ s.books.seq q) : x ≠ e := by
    rintro rfl
    exact out q (Multiset.mem_coe.mpr member)
  have stays (order : (s.books.seq q).Pairwise s.books.Precedes) : (s.books.seq q).Pairwise s'.books.Precedes :=
    order.imp_of_mem fun hx hy before => before.push vruntime pushed (absent _ hx) (absent _ hy)
  have older (window : s'.books.WindowedOn q) : s.books.WindowedOn q :=
    fun ev member => window ev (written ▸ List.mem_cons_of_mem _ member)
  by_cases here : q = p
  · subst here
    have seq : s'.books.seq q = front ++ e :: back := by
      rw [new]
      exact update_self ..
    have present (window : s'.books.WindowedOn q) : ∃ base, ∀ x, x = e ∨ x ∈ s.books.seq q →
        SchedTime.since base (s.books.vruntime x) < 2 ^ 63 := by
      obtain ⟨base, _, near⟩ := window (.insert q e _) (written ▸ List.mem_cons_self ..) rfl
      refine ⟨base, fun x member => near _ (List.mem_map_of_mem ?_)⟩
      rw [presentOn, List.mem_append, List.mem_cons]
      exact .inl member
    refine ⟨older, fun window order => ?_, fun window _ => ?_⟩
    · obtain ⟨base, nearby⟩ := present window
      have mine := nearby e (.inl rfl)
      obtain ⟨ahead, behind⟩ := apart <| order.imp_of_mem fun {x y} hx hy before first => by
        have wx := nearby x (.inr hx)
        have wy := nearby y (.inr hy)
        have le := before.le wx wy
        rw [sdiff_window mine wx] at first
        rw [sdiff_window mine wy]
        omega
      have both := stays order
      rw [old, List.pairwise_append] at both
      obtain ⟨first, last, across⟩ := both
      have before (x : EntId) (member : x ∈ front) : s'.books.Precedes x e := by
        have listed : x ∈ s.books.seq q := old ▸ List.mem_append_left _ member
        have wx := nearby x (.inr listed)
        have le := ahead x member
        rw [sdiff_window mine wx] at le
        unfold Books.Precedes
        rw [vruntime, pushed, List.idxOf_cons_self, List.idxOf_cons_ne _ (absent x listed).symm, sdiff_window wx mine]
        -- Of equal vruntimes the newest comes last.
        rcases lt_or_eq_of_le (show SchedTime.since base (s.books.vruntime x) ≤ SchedTime.since base (s.books.vruntime e) by omega)
          with earlier | same
        · exact .inl (by omega)
        · refine .inr ⟨?_, Nat.succ_pos _⟩
          have diff := BitVec.eq_of_toNat_eq same
          exact (BitVec.sub_left_inj base).mp diff
      have after (y : EntId) (member : y ∈ back) : s'.books.Precedes e y := by
        refine .inl ?_
        rw [vruntime]
        exact behind y member
      rw [seq, List.pairwise_append, List.pairwise_cons]
      refine ⟨first, ⟨after, last⟩, fun x hx y hy => ?_⟩
      rcases List.mem_cons.mp hy with rfl | rest
      · exact before x hx
      · exact across x hx y rest
    · obtain ⟨base, nearby⟩ := present window
      refine ⟨base, fun x member => ?_⟩
      rw [vruntime]
      refine nearby x ?_
      rw [seq, List.mem_append, List.mem_cons] at member
      rw [old, List.mem_append]
      tauto
  · have seq : s'.books.seq q = s.books.seq q := by
      rw [new]
      exact update_of_ne here ..
    refine ⟨older, fun _ order => ?_, fun _ near => ?_⟩
    · rw [seq]
      exact stays order
    · obtain ⟨base, near⟩ := near
      refine ⟨base, fun x member => ?_⟩
      rw [vruntime]
      exact near x (seq ▸ member)

end Sorts

/-- A charge changes the vruntime of an entity outside all timelines, and all other entries leave
what is in a timeline as it is. -/
theorem Entries.sorts {o : Prop} {c : Gid → Option EntId} {n : EntId → Prop} {s s' : State} {q : Gid} (ordered : o)
    (h : Entries o c n s s') : Sorts q s s' := by
  induction h with
  | trans _ _ ih ih' => exact ih.trans ih'
  | still fresh written quiet seq vruntime =>
    exact .still fresh written (fun ev member => (quiet ev member).inserted) (seq q) (vruntime ordered q)
  | charge p e w current out paid =>
    refine .still [_] (by rw [paid]; rfl) (by simp [Event.inserted]) ?_ fun x member => ?_
    · rw [paid]
      exact .refl _
    · rw [paid] at member ⊢
      have other : x ≠ e := by
        rintro rfl
        exact out q (Multiset.mem_coe.mpr member)
      exact update_of_ne other ..
  | insert p e run out => exact .insert run out

section runs
variable {C : Conds} {s s' : State} {q : Gid}

theorem Booked.sorts (forks : C.forks) (step : Booked C s s') : Sorts q s s' := by
  cases step with
  | entries h => exact h.sorts forks
  | timed a h h' => exact (h.sorts forks).trans ((Sorts.clock a).trans (h'.sorts forks))
  | picked p e run =>
    obtain ⟨_, _, _, _, written⟩ := pickNextEntity_written run
    refine .still [_] (by rw [written]; rfl) (by simp [Event.inserted]) ?_ fun x _ => ?_ <;> rw [written]
  | released t a inv h curr charged run =>
    rw [run]
    exact (h.sorts forks).trans (.emit a _ rfl)
  | dispatched t a hier vacant h joined curr started activated books =>
    refine (h.sorts forks).trans (.still [_] (by rw [books]; rfl) (by simp [Event.inserted]) ?_ fun e _ => ?_)
    · rw [books]
    · rw [books]

theorem Path.sorts (positive : C.positive) (forks : C.forks) (h : Path C s s') : Sorts q s s' := by
  induction h with
  | refl => exact .refl _
  | step inv micro _ ih => exact ((micro.booked positive inv).sorts forks).trans ih

theorem bootQueues_ordered (k : Kernel) (tun : Tunables) : (bootQueues k tun).books.Ordered := by
  intro q
  exact .nil

theorem Runs.ordered {k : Kernel} {tun : Tunables} {ops : List Op} (positive : C.positive) (forks : C.forks)
    (runs : Runs C k tun ops s) (window : s.books.Windowed) : s.books.Ordered :=
  fun q => (runs.path.sorts positive forks).kept (window.on q) (bootQueues_ordered k tun q)

end runs

section order
variable {k : Kernel} {tun : Tunables} {ops : List Op} {s : State}

/-- Shares stay positive, and no fork exchanges the vruntime of a queued parent. -/
def Conds.sorting : Conds := ⟨True, False, True, False, False, False⟩

theorem run_sorting (ran : run k tun ops = some s) (asked : ∀ g, g ≠ 0 → Op.setShares g 0 ∉ ops)
    (kept : ∀ before p newProc stale after a, ops = before ++ .fork p newProc stale :: after →
      run k tun before = some a → ¬forkSwapsQueued a p newProc stale) : Runs .sorting k tun ops s := by
  refine run_runs ops ran fun before op after a split there => ?_
  cases op with
  | schedClass t priClass => exact ⟨fun _ never => never.elim, fun _ never => never.elim⟩
  | fork p newProc stale => exact fun _ => kept before p newProc stale after a split there
  | setShares g shares =>
    refine ⟨fun _ above zero => asked g above ?_, fun never => never.elim⟩
    rw [split, ← zero]
    simp
  | nice p nice => exact id
  | _ => trivial

/-- Every timeline is in the order of the vruntimes, equal ones in the order in which they
came, and its first entity is the cached one. -/
theorem timeline_order (k : Kernel) (tun : Tunables) (ops : List Op) (s : State) (ran : run k tun ops = some s)
    (asked : ∀ g, g ≠ 0 → Op.setShares g 0 ∉ ops)
    (kept : ∀ before p newProc stale after a, ops = before ++ .fork p newProc stale :: after →
      run k tun before = some a → ¬forkSwapsQueued a p newProc stale)
    (window : s.books.Windowed) (q : Gid) :
    (s.sfq q).seq.Pairwise (fun x y =>
      sdiff (s.ent x).vruntime (s.ent y).vruntime ≤ 0 ∧
      ((s.ent x).vruntime = (s.ent y).vruntime → s.books.insertions.idxOf y < s.books.insertions.idxOf x)) ∧
    (s.sfq q).leftmost = (s.sfq q).seq.head? ∧ ((s.sfq q).leftmost = none ↔ (s.sfq q).seq = []) := by
  have runs := run_sorting ran asked kept
  have led := runs.led q
  have order : (s.sfq q).seq.Pairwise s.books.Precedes := runs.ordered trivial trivial window q
  refine ⟨order.imp fun {x y} before => ?_, led, ?_⟩
  · rcases before with earlier | ⟨same, later⟩
    · refine ⟨earlier.le, fun same => ?_⟩
      have none_left : sdiff (s.books.vruntime x) (s.books.vruntime y) = 0 := by
        rw [show s.books.vruntime x = s.books.vruntime y from same, sdiff, BitVec.sub_self]
        rfl
      exact absurd none_left earlier.ne
    · refine ⟨le_of_eq ?_, fun _ => later⟩
      change sdiff (s.books.vruntime x) (s.books.vruntime y) = 0
      rw [same, sdiff, BitVec.sub_self]
      rfl
  · rw [led, List.head?_eq_none_iff]

end order

/-- The running thread forks twice, and each child is made runnable. -/
def twoChildren : List Op := [.fork 0 false {}, .add 2, .fork 0 false {}, .add 3]

theorem timeline_order_children :
    ∃ s, run plainKernel { childRunsFirst := true } twoChildren = some s ∧ (s.sfq 0).seq = [.thread 2, .thread 3] ∧
      sdiff (s.ent (.thread 2)).vruntime (s.ent (.thread 3)).vruntime ≤ 0 := by
  have result : (run plainKernel { childRunsFirst := true } twoChildren).map (fun s =>
      (decide s.books.Windowed, (s.sfq 0).seq)) = some (true, [.thread 2, .thread 3]) := by decide +kernel
  obtain ⟨s, ran, values⟩ := Option.map_eq_some_iff.mp result
  obtain ⟨window, seq⟩ := Prod.mk.inj values
  have running (before : List Op) (member : before ∈ [[], [.fork 0 false {}, .add 2]]) (a : State)
      (there : run plainKernel { childRunsFirst := true } before = some a) : (a.ent (.thread 0)).onSfq = false := by
    have off : ∀ before ∈ [[], [Op.fork 0 false {}, .add 2]],
        (run plainKernel { childRunsFirst := true } before).map (fun a => (a.ent (.thread 0)).onSfq) = some false := by
      decide +kernel
    have here := off before member
    rw [there] at here
    exact Option.some.inj here
  have kept (before : List Op) (p : Tid) (newProc : Bool) (stale : SchedEntity) (after : List Op) (a : State)
      (split : twoChildren = before ++ .fork p newProc stale :: after)
      (there : run plainKernel { childRunsFirst := true } before = some a) : ¬forkSwapsQueued a p newProc stale := by
    rintro ⟨_, queued, _⟩
    have both : p = 0 ∧ before ∈ [[], [.fork 0 false {}, .add 2]] := by
      rcases before with _ | ⟨one, _ | ⟨two, _ | ⟨three, _ | ⟨four, rest⟩⟩⟩⟩ <;> simp [twoChildren] at split ⊢ <;> grind
    rw [both.1, running before both.2 a there] at queued
    cases queued
  have all := timeline_order plainKernel { childRunsFirst := true } twoChildren s ran (by simp [twoChildren]) kept
    (of_decide_eq_true window) 0
  refine ⟨s, ran, seq, ?_⟩
  have order := all.1
  rw [seq] at order
  exact (List.rel_of_pairwise_cons order (List.mem_singleton_self _)).1

/-- The first of two queued threads has a child. -/
def queuedParent : List Op := twoChildren ++ [.fork 2 false {}]

/-- The exchange of `child_runs_first` makes the first of the timeline the last to run. -/
theorem timeline_order_swapped :
    ¬ ∀ (k : Kernel) (tun : Tunables) (ops : List Op) (s : State), run k tun ops = some s → s.books.Windowed →
      ∀ q, (s.sfq q).seq.Pairwise fun x y => sdiff (s.ent x).vruntime (s.ent y).vruntime ≤ 0 := by
  intro claimed
  have result : (run plainKernel { childRunsFirst := true } queuedParent).map (fun s =>
      (decide s.books.Windowed, (s.sfq 0).seq, decide (sdiff (s.ent (.thread 2)).vruntime (s.ent (.thread 3)).vruntime ≤ 0))) =
      some (true, [.thread 2, .thread 3], false) := by decide +kernel
  obtain ⟨s, ran, values⟩ := Option.map_eq_some_iff.mp result
  simp only [Prod.mk.injEq] at values
  obtain ⟨window, seq, late⟩ := values
  have order := claimed _ _ _ s ran (of_decide_eq_true window) 0
  rw [seq] at order
  exact of_decide_eq_false late (List.rel_of_pairwise_cons order (List.mem_singleton_self _))

end SfqSched
