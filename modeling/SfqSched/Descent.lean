import SfqSched.Leftmost
import SfqSched.SchedTime

namespace SfqSched
open State Function

/-- A thread, or a group that was created. -/
def EntId.known (ngroups : Nat) : EntId → Bool
  | .thread _ => true
  | .group g => decide (0 < g) && decide (g < ngroups)

/-- Every next and last candidate is an entity that stands on the queue. -/
def State.candidatesPlaced (s : State) : Prop :=
  ∀ q < s.ngroups, ∀ e ∈ (s.sfq q).next.toList ++ (s.sfq q).last.toList, e.known s.ngroups ∧ (s.ent e).sfq = q

instance (s : State) : Decidable s.candidatesPlaced :=
  inferInstanceAs (Decidable (∀ q < s.ngroups, ∀ e ∈ _, _))

theorem EntId.known_iff {n : Nat} {e : EntId} : e.known n ↔ ∀ g, e = .group g → 0 < g ∧ g < n := by
  cases e <;> simp [EntId.known]

theorem candidatesPlaced_iff {s : State} : s.candidatesPlaced ↔ ∀ q < s.ngroups, ∀ e,
    (s.sfq q).next = some e ∨ (s.sfq q).last = some e →
      (∀ g, e = .group g → 0 < g ∧ g < s.ngroups) ∧ (s.ent e).sfq = q := by
  unfold State.candidatesPlaced
  simp only [List.mem_append, Option.mem_toList, EntId.known_iff]

theorem State.candidatesPlaced.congr {s s' : State} (placed : s.candidatesPlaced) (frame : s'.view.frame = s.view.frame)
    (next : s'.books.next = s.books.next) (last : s'.books.last = s.books.last) : s'.candidatesPlaced := by
  have sfq : s'.view.sfq = s.view.sfq := congrArg View.Frame.sfq frame
  have ngroups : s'.view.ngroups = s.view.ngroups := congrArg View.Frame.ngroups frame
  refine candidatesPlaced_iff.mpr fun q inside e marked => ?_
  have next : (s'.sfq q).next = (s.sfq q).next := congrFun next q
  have last : (s'.sfq q).last = (s.sfq q).last := congrFun last q
  rw [next, last] at marked
  obtain ⟨valid, place⟩ := candidatesPlaced_iff.mp placed q (lt_of_lt_of_eq inside ngroups) e marked
  exact ⟨fun g same => ⟨(valid g same).1, lt_of_lt_of_eq (valid g same).2 ngroups.symm⟩, (congrFun sfq e).trans place⟩

/-- `wakeup_preempt_entity(c, first) < 1`: `c` is not ahead of `first` by more than its granularity. -/
def State.near (s : State) (c first : EntId) : Prop := s.books.close (wakeupGran s first).1 c first

theorem wakeupPreemptEntity_near (s : State) (c first : EntId) :
    (wakeupPreemptEntity s c first).1 < 1 ↔ s.near c first := by
  refine ⟨wakeupPreemptEntity_close s c first, fun near => ?_⟩
  unfold State.near Books.close at near
  unfold wakeupPreemptEntity
  change sdiff (s.ent c).vruntime (s.ent first).vruntime ≤ _ at near
  dsimp only
  split
  · split
    · omega
    · exact Int.zero_lt_one
  · exact Int.negSucc_lt_zero 0 |>.trans Int.zero_lt_one

section pick
variable {s a b : State} {q : Gid} {e c first : EntId} {acc : EntId × State}

theorem Chosen.near (h : Chosen s q first acc) (c : EntId) : acc.2.near c first ↔ s.near c first := by
  unfold State.near
  rw [h.books, h.gran]

/-- One `if` of `pick_next_entity`, seen from the state it started in. -/
theorem Chosen.prefer_fst (h : Chosen s q first acc) (o : Option EntId) :
    (∃ c, o = some c ∧ s.near c first ∧ (preferCandidate o first acc).1 = c) ∨
      ((∀ c, o = some c → ¬s.near c first) ∧ (preferCandidate o first acc).1 = acc.1) := by
  cases o with
  | none => exact .inr ⟨fun c never => (by cases never), rfl⟩
  | some c =>
    have decides := (wakeupPreemptEntity_near acc.2 c first).trans (h.near c)
    simp only [preferCandidate]
    split
    · rename_i close
      exact .inl ⟨c, rfl, decides.mp close, rfl⟩
    · rename_i far
      refine .inr ⟨?_, rfl⟩
      rintro _ ⟨⟩ near
      exact far (decides.mpr near)

/-- The entity that takes the place of a skipped first one. -/
def secondEntity (s : State) (q : Gid) (first : EntId) : Option EntId :=
  if (s.sfq q).skip = some first then rbNext (s.sfq q).seq first else none

/-- How `pick_next_entity` chose `e`: the next candidate, else the last one, else the second entity
where the first one is to be skipped, each only if it is near the first one, and else the first one. -/
structure Picked (s : State) (q : Gid) (first e : EntId) : Prop where
  next : ∀ n, (s.sfq q).next = some n → s.near n first → e = n
  origin : e = first ∧ (∀ x, secondEntity s q first = some x → ¬s.near x first) ∨
    ((s.sfq q).next = some e ∨ (s.sfq q).last = some e ∨ secondEntity s q first = some e) ∧ s.near e first

theorem pickNextEntity_picked {s' : State} (run : pickNextEntity s q = some (e, s')) :
    ∃ first a, s.books.leftmost q = some first ∧ a.view = s.view ∧ a.books = s.books ∧
      (∀ x, (wakeupGran a x).1 = (wakeupGran s x).1) ∧
      s' = clearCandidates (a.emit (.pick q (s.books.seq q) first (wakeupGran s first).1 e)) q e ∧
      Picked s q first e := by
  unfold pickNextEntity at run
  split at run
  · cases run
  · rename_i first isFirst
    have start : Chosen s q first (first, s) := ⟨rfl, rfl, .refl s, fun _ => rfl, .inl rfl⟩
    have second := start.prefer (secondEntity s q first) (by
      intro e new
      unfold secondEntity at new
      split at new
      · exact .inl (rbNext_mem new)
      · cases new)
    have third := second.prefer (s.sfq q).last (fun e new => .inr ⟨.last, new⟩)
    have fourth := third.prefer (s.sfq q).next (fun e new => .inr ⟨.next, new⟩)
    have one := start.prefer_fst (secondEntity s q first)
    have two := second.prefer_fst (s.sfq q).last
    have three := third.prefer_fst (s.sfq q).next
    dsimp only at run
    rw [show (if (s.sfq q).skip = some first then rbNext (s.sfq q).seq first else none) = secondEntity s q first
      from rfl] at run
    generalize preferCandidate (secondEntity s q first) first (first, s) = acc₁ at *
    generalize preferCandidate (s.sfq q).last first acc₁ = acc₂ at *
    generalize preferCandidate (s.sfq q).next first acc₂ = chosen at *
    obtain ⟨x, a⟩ := chosen
    cases run
    have seq : (a.sfq q).seq = s.books.seq q := congrFun (congrArg Books.seq fourth.books) q
    refine ⟨first, a, isFirst, fourth.view, fourth.books, fourth.gran, ?_, ?_, ?_⟩
    · rw [seq, fourth.gran]
    · intro n marked near
      rcases three with ⟨c, same, _, rfl⟩ | ⟨far, _⟩
      · exact Option.some.inj (same.symm.trans marked)
      · exact absurd near (far n marked)
    · rcases three with ⟨c, marked, near, rfl⟩ | ⟨_, rfl⟩
      · exact .inr ⟨.inl marked, near⟩
      rcases two with ⟨c, marked, near, same⟩ | ⟨_, same⟩
      · rw [same]
        exact .inr ⟨.inr (.inl marked), near⟩
      rcases one with ⟨c, marked, near, same'⟩ | ⟨far, same'⟩
      · rw [same, same']
        exact .inr ⟨.inr (.inr marked), near⟩
      · rw [same, same']
        exact .inl ⟨rfl, far⟩

end pick

section clear
variable {s : State} {q : Gid} {e : EntId}

/-- Only queues of the chain lose a candidate. -/
theorem clearCandidateWalk_beside (c : Candidate) {chain : List EntId} (beside : ∀ x ∈ chain, q ≠ (s.ent x).sfq) :
    (clearCandidateWalk c s chain).sfq q = s.sfq q := by
  induction chain generalizing s with
  | nil => rfl
  | cons x rest ih =>
    have first := beside x (List.mem_cons_self ..)
    unfold clearCandidateWalk
    dsimp only
    split
    · refine Eq.trans (ih (s := s.modSfq _ _) fun y member => beside y (List.mem_cons_of_mem _ member)) ?_
      exact update_of_ne first ..
    · rfl

theorem clearCandidateWalk_ent (c : Candidate) (chain : List EntId) :
    (clearCandidateWalk c s chain).ent = s.ent ∧ (clearCandidateWalk c s chain).tun = s.tun ∧
      (clearCandidateWalk c s chain).ngroups = s.ngroups := by
  induction chain generalizing s with
  | nil => exact ⟨rfl, rfl, rfl⟩
  | cons x rest ih =>
    unfold clearCandidateWalk
    dsimp only
    split
    · exact ih (s := s.modSfq _ _)
    · exact ⟨rfl, rfl, rfl⟩

theorem clearStep_beside (c : Candidate) (s : State) (p : Gid) (beside : ∀ x ∈ walkup s (some e), q ≠ (s.ent x).sfq) :
    (clearStep c s p e).sfq q = s.sfq q ∧ (clearStep c s p e).ent = s.ent ∧ (clearStep c s p e).tun = s.tun ∧
      walkup (clearStep c s p e) (some e) = walkup s (some e) := by
  unfold clearStep
  split
  · obtain ⟨ent, tun, groups⟩ := clearCandidateWalk_ent (s := s) c (walkup s (some e))
    refine ⟨clearCandidateWalk_beside c beside, ent, tun, ?_⟩
    generalize clearCandidateWalk c s (walkup s (some e)) = a at ent groups
    simp only [walkup, ent, groups]
  · exact ⟨rfl, rfl, rfl, rfl⟩

theorem clearCandidates_beside (s : State) (p : Gid) (beside : ∀ x ∈ walkup s (some e), q ≠ (s.ent x).sfq) :
    (clearCandidates s p e).sfq q = s.sfq q ∧ (clearCandidates s p e).ent = s.ent ∧ (clearCandidates s p e).tun = s.tun := by
  rw [clearCandidates_steps]
  obtain ⟨sfq₁, ent₁, tun₁, walk₁⟩ := clearStep_beside .skip s p beside
  obtain ⟨sfq₂, ent₂, tun₂, walk₂⟩ := clearStep_beside (q := q) .next (clearStep .skip s p e) p (by rw [walk₁, ent₁]; exact beside)
  obtain ⟨sfq₃, ent₃, tun₃, _⟩ := clearStep_beside (q := q) .last (clearStep .next (clearStep .skip s p e) p e) p
    (by rw [walk₂, ent₂, walk₁, ent₁]; exact beside)
  exact ⟨sfq₃.trans (sfq₂.trans sfq₁), ent₃.trans (ent₂.trans ent₁), tun₃.trans (tun₂.trans tun₁)⟩

end clear

/-- What follows an entity on its chain is the chain of its parent. -/
theorem Chain.after {α : Type} {parent : α → Option α} {x : α} {up : List α} :
    ∀ {low : List α} {o : Option α}, Chain parent o (low ++ x :: up) → Chain parent (parent x) up
  | [], _, .link links => links
  | _ :: _, _, .link links => Chain.after links

/-- What the picks on queues above `q` leave of the state in which the descent began: no more
than candidates have changed, and these only above `q`. -/
structure Descended (s b : State) (q : Gid) : Prop where
  view : b.view = s.view
  vruntime : b.books.vruntime = s.books.vruntime
  seq : b.books.seq = s.books.seq
  leftmost : b.books.leftmost = s.books.leftmost
  gran : ∀ e, (wakeupGran b e).1 = (wakeupGran s e).1
  below : ∀ c p, q ≤ p → b.books.candidate c p = s.books.candidate c p
  fewer : ∀ c p e, b.books.candidate c p = some e → s.books.candidate c p = some e

theorem wakeupGran_fst (s : State) (e : EntId) : (wakeupGran s e).1 =
    if (s.ent e).load.weight = nice0Weight then s.tun.wakeupGranularity
    else (scaleByWeight s.tun.wakeupGranularity nice0Weight (s.ent e).load).1 := by
  unfold wakeupGran scaleDelta
  split <;> rfl

section descent
variable {s a b s' : State} {q : Gid} {e : EntId} {t : Tid}

theorem Descended.refl (s : State) (q : Gid) : Descended s s q :=
  ⟨rfl, rfl, rfl, rfl, fun _ => rfl, fun _ _ _ => rfl, fun _ _ _ => id⟩

theorem Descended.near (h : Descended s b q) (c first : EntId) : b.near c first ↔ s.near c first := by
  unfold State.near Books.close
  rw [h.vruntime, h.gran]

/-- The queues of an entity's chain lie above what is below the entity. -/
theorem chain_above (hier : s.view.Hier) {g : Nat} (low : g < s.view.ngroups) {p : Nat} (below : g ≤ p) (pos : 0 < g) :
    ∀ x ∈ walkup s (some (.group g)), p ≠ s.view.sfq x := by
  have links := hier.chain (e := .group g) (Nat.lt_succ_of_lt low)
  have above : ∀ x ∈ walkup s (some (.group g)), s.view.sfq x < g := by
    refine links.all (p := fun x => s.view.sfq x < g) ?_ ?_
    · rintro x ⟨⟩
      have lower := hier.lower g
      omega
    · intro x y less up
      obtain ⟨pos', _, rfl⟩ := hier.parent_some up
      have lower := hier.lower (s.view.sfq x)
      omega
  intro x member same
  have less := above x member
  omega

/-- One pick on the way down. -/
theorem Descended.pick {g : Nat} (h : Descended s a q) (hier : s.view.Hier) (inside : g < s.view.ngroups) (pos : 0 < g)
    (lower : q ≤ g) (run : pickNextEntity a q = some (.group g, b)) : Descended s b g := by
  obtain ⟨first, c, _, view, books, gran, rfl, _⟩ := pickNextEntity_picked run
  generalize ev : Event.pick q (a.books.seq q) first (wakeupGran a first).1 (.group g) = event
  have marked := clearCandidates_marked (r := fun _ _ => False) (c.emit event) q (.group g)
  have hier' : (c.emit event).view.Hier := by
    rw [view_emit, view, h.view]
    exact hier
  have inside' : g < (c.emit event).view.ngroups := by
    rw [view_emit, view, h.view]
    exact inside
  have chosen (cand : Candidate) : (c.emit event).books.candidate cand = a.books.candidate cand := by
    rw [books_emit, books]
    cases cand <;> rfl
  obtain ⟨ent, tun⟩ := (clearCandidates_beside (q := g) (c.emit event) q (chain_above hier' inside' (Nat.le_refl g) pos)).2
  refine ⟨?_, ?_, ?_, ?_, fun e => ?_, fun cand p below => ?_, fun cand p e there => ?_⟩
  · simp [view, h.view]
  · rw [marked.rest]
    exact (congrArg Books.vruntime books).trans h.vruntime
  · rw [marked.rest]
    exact (congrArg Books.seq books).trans h.seq
  · rw [marked.rest]
    exact (congrArg Books.leftmost books).trans h.leftmost
  · have same : (wakeupGran (clearCandidates (c.emit event) q (.group g)) e).1 = (wakeupGran c e).1 := by
      rw [wakeupGran_fst, wakeupGran_fst, ent, tun]
      rfl
    rw [same, gran, h.gran]
  · have kept := (clearCandidates_beside (q := p) (c.emit event) q (chain_above hier' inside' below pos)).1
    have same : (clearCandidates (c.emit event) q (.group g)).books.candidate cand p = (c.emit event).books.candidate cand p := by
      rw [← books_candidate, ← books_candidate, kept]
    rw [same, chosen]
    exact h.below cand p (Nat.le_trans lower below)
  · rcases marked.pointer cand p e there with old | never
    · rw [chosen] at old
      exact h.fewer cand p e old
    · exact never.elim

/-- What is picked stands on the queue, where candidates do. -/
theorem Descended.seated (h : Descended s a q) (core : s.view.Core []) (led : s.led) (placed : s.candidatesPlaced)
    (low : q < s.view.ngroups) (run : pickNextEntity a q = some (e, b)) :
    (∀ g, e = .group g → 0 < g ∧ g < s.view.ngroups) ∧ s.view.sfq e = q := by
  have listed (x : EntId) (member : x ∈ s.books.seq q) :
      (∀ g, x = .group g → 0 < g ∧ g < s.view.ngroups) ∧ s.view.sfq x = q := by
    obtain ⟨there, _, place⟩ := core.member q x (Multiset.mem_coe.mpr member)
    refine ⟨?_, place⟩
    rintro g rfl
    exact core.valid _ there
  obtain ⟨first, _, isFirst, _, _, _, _, picked⟩ := pickNextEntity_picked run
  rcases picked.origin with ⟨rfl, _⟩ | ⟨next | last | second, _⟩
  · rw [h.leftmost] at isFirst
    have cached : s.books.leftmost q = (s.books.seq q).head? := led q
    exact listed _ (List.mem_of_mem_head? (cached.symm.trans isFirst))
  · exact candidatesPlaced_iff.mp placed q low e (.inl (h.fewer .next q e next))
  · exact candidatesPlaced_iff.mp placed q low e (.inr (h.fewer .last q e last))
  · unfold secondEntity at second
    split at second
    · refine listed e ?_
      rw [← h.seq]
      exact rbNext_mem second
    · cases second

/-- A descent that ends at a thread has picked each entity of the thread's chain from
the queue it started at downwards. -/
theorem pssPickFrom_trace (core : s.view.Core []) (led : s.led) (placed : s.candidatesPlaced) :
    ∀ (fuel : Nat) {a : State} {q : Gid}, Descended s a q → q < s.view.ngroups → pssPickFrom a fuel q = some (.thread t, s') →
      ∃ low x up, walkup s (some (.thread t)) = low ++ x :: up ∧ s.view.sfq x = q ∧
        ∀ y ∈ low ++ [x], ∃ b b', Descended s b (s.view.sfq y) ∧ pickNextEntity b (s.view.sfq y) = some (y, b') := by
  have hier := core.hier
  intro fuel
  induction fuel with
  | zero => exact fun _ _ never => by cases never
  | succ fuel ih =>
    intro a q h inside run
    unfold pssPickFrom at run
    split at run
    · cases run
    · rename_i e b pick
      obtain ⟨there, place⟩ := h.seated core led placed inside pick
      have look : b.view = s.view := (pickNextEntity_view pick).trans h.view
      have picked : ∃ b b', Descended s b (s.view.sfq e) ∧ pickNextEntity b (s.view.sfq e) = some (e, b') := by
        rw [place]
        exact ⟨a, b, h, pick⟩
      cases e with
      | thread u =>
        rw [view_myQ, look, hier.threadQ] at run
        cases run
        obtain ⟨rest, chain, _⟩ := thread_chain hier t
        refine ⟨[], .thread t, rest, chain, place, fun y member => ?_⟩
        cases List.mem_singleton.mp member
        exact picked
      | group g =>
        obtain ⟨pos, inside'⟩ := there g rfl
        rw [view_myQ, look, hier.groupQ g pos inside'] at run
        have lower := hier.lower g
        rw [place] at lower
        obtain ⟨low, x, up, chain, at_x, all⟩ :=
          ih (h.pick hier inside' pos (Nat.le_trans lower (Nat.sub_le ..)) pick) inside' run
        -- the chain goes on with the entity of the group
        have links := hier.chain (e := .thread t) (Nat.lt_succ_self _)
        rw [chain] at links
        have above := links.after
        rw [hier.link, at_x, seOf, if_neg pos.ne'] at above
        cases above with
        | link above =>
          rename_i up
          refine ⟨low ++ [x], .group g, up, by rw [chain]; simp, place, fun y member => ?_⟩
          rcases List.mem_append.mp member with inside | last
          · exact all y inside
          · cases List.mem_singleton.mp last
            exact picked

/-- If `pss_pick_next_thread` returns a thread, it has picked each entity of the thread's chain. -/
theorem pssPickNextThread_trace (core : s.view.Core []) (led : s.led) (placed : s.candidatesPlaced)
    (run : pssPickNextThread s = some (some t, s')) :
    ∀ y ∈ walkup s (some (.thread t)), ∃ b b', Descended s b (s.view.sfq y) ∧
      pickNextEntity b (s.view.sfq y) = some (y, b') := by
  unfold pssPickNextThread at run
  split at run
  · cases run
  · obtain ⟨⟨e, a⟩, walk, run⟩ := Option.bind_eq_some_iff.mp run
    dsimp only at run
    split at run
    · rename_i u thread
      split at run
      · cases run
      · cases run
        have same : e = .thread t := by
          cases e with
          | thread v =>
            unfold seToTd at thread
            split at thread
            · rename_i which _
              exact congrArg EntId.thread ((EntId.thread.inj which).trans (Option.some.inj thread))
            · cases thread
          | group g => cases (seToTd_group g).symm.trans thread
        subst same
        obtain ⟨low, x, up, chain, at_x, all⟩ :=
          pssPickFrom_trace core led placed _ (Descended.refl s 0) core.hier.positive walk
        have links := core.hier.chain (e := .thread t) (Nat.lt_succ_self _)
        rw [chain] at links
        have above := links.after
        rw [core.hier.link, at_x] at above
        cases above
        intro y member
        rw [chain] at member
        exact all y member
    · cases run

end descent
end SfqSched
