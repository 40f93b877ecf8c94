import SfqSched.Descent

namespace SfqSched
open State Function

/-- What the entities of `chain` leave behind as they go back on their queues: only their own
vruntimes move, by the time since their last charges, and only they are new in a timeline. -/
structure Returned (s s' : State) (chain : List EntId) : Prop where
  next : s'.books.next = s.books.next
  last : s'.books.last = s.books.last
  clock : s'.books.clock = s.books.clock
  timing : ∀ x, x ∉ chain → s'.books.timingStart x = s.books.timingStart x
  vruntime : ∀ x, (x ∈ chain → s.books.timingStart x = s.books.clock) → s'.books.vruntime x = s.books.vruntime x
  timeline : ∀ q x, x ∈ s'.view.timeline q → x ∈ s.view.timeline q ∨ x ∈ chain ∧ s.view.sfq x = q
  frame : s'.view.frame = s.view.frame

section returned
variable {s s' : State} {e : EntId} {q : Gid} {flags : Nat} {t : Tid}

theorem Returned.refl (s : State) : Returned s s [] :=
  ⟨rfl, rfl, rfl, fun _ _ => rfl, fun _ _ => rfl, fun _ _ => .inl, rfl⟩

theorem Returned.cons {a : State} {rest : List EntId} (h : Returned s a [e]) (h' : Returned a s' rest) (fresh : e ∉ rest) :
    Returned s s' (e :: rest) where
  next := h'.next.trans h.next
  last := h'.last.trans h.last
  clock := h'.clock.trans h.clock
  timing x out := by
    simp only [List.mem_cons, not_or] at out
    exact (h'.timing x out.2).trans (h.timing x (by simpa using out.1))
  vruntime x still := by
    have first := h.vruntime x fun member => still (List.mem_cons.mpr (.inl (List.mem_singleton.mp member)))
    refine Eq.trans (h'.vruntime x fun member => ?_) first
    have other : x ∉ [e] := fun same => fresh (List.mem_singleton.mp same ▸ member)
    rw [h.timing x other, h.clock]
    exact still (List.mem_cons_of_mem _ member)
  timeline q x member := by
    rcases h'.timeline q x member with before | ⟨member, place⟩
    · rcases h.timeline q x before with before | ⟨member, place⟩
      · exact .inl before
      · exact .inr ⟨List.mem_cons.mpr (.inl (List.mem_singleton.mp member)), place⟩
    · have sfq : a.view.sfq = s.view.sfq := congrArg View.Frame.sfq h.frame
      exact .inr ⟨List.mem_cons_of_mem _ member, by rw [← sfq]; exact place⟩
  frame := h'.frame.trans h.frame

theorem setSkipWalk_books (chain : List EntId) :
    (setSkipWalk s chain).books = { s.books with skip := (setSkipWalk s chain).books.skip } := by
  induction chain generalizing s with
  | nil => rfl
  | cons x rest ih =>
    have one : (s.modSfq (s.ent x).sfq fun sfq => sfq.setCandidate .skip (some x)).books =
        { s.books with skip := update s.books.skip (s.ent x).sfq (some x) } := by
      simp [books_modSfq, Sfq.setCandidate]
    unfold setSkipWalk
    dsimp only
    split
    · rw [one]
    · rw [ih, one]

/-- The charge of `put_prev_entity`, which a yield precedes by its skip marks. -/
theorem putPrevCharge_books (flags : Nat) (current : s.view.curr q = some e) :
    let b := (putPrevCharge s q e flags).books
    b.next = s.books.next ∧ b.last = s.books.last ∧ b.clock = s.books.clock ∧ b.seq = s.books.seq ∧
      (∀ x, x ≠ e → b.timingStart x = s.books.timingStart x ∧ b.vruntime x = s.books.vruntime x) ∧
      (s.books.timingStart e = s.books.clock → b.vruntime e = s.books.vruntime e) := by
  have charge (a : State) (view : a.view = s.view) (books : a.books = { s.books with skip := a.books.skip }) :
      let b := (updateCurr a q).books
      b.next = s.books.next ∧ b.last = s.books.last ∧ b.clock = s.books.clock ∧ b.seq = s.books.seq ∧
        (∀ x, x ≠ e → b.timingStart x = s.books.timingStart x ∧ b.vruntime x = s.books.vruntime x) ∧
        (s.books.timingStart e = s.books.clock → b.vruntime e = s.books.vruntime e) := by
    dsimp only
    rcases updateCurr_books a q with ⟨same, _⟩ | ⟨x, w, isCurr, moved, paid⟩
    · rw [same, books]
      exact ⟨rfl, rfl, rfl, rfl, fun _ _ => ⟨rfl, rfl⟩, fun _ => rfl⟩
    · rw [view, current] at isCurr
      cases isCurr
      rw [paid, books]
      refine ⟨rfl, rfl, rfl, rfl, fun x other => ⟨update_of_ne other .., update_of_ne other ..⟩, fun still => ?_⟩
      rw [books] at moved
      exact absurd still moved
  unfold putPrevCharge
  split
  · refine charge _ (by simp [setSkipCandidate]) ?_
    unfold setSkipCandidate
    exact setSkipWalk_books ..
  · exact charge s rfl rfl

theorem putPrevEntity_returned (hier : s.view.Hier) (current : s.view.curr (s.view.sfq e) = some e)
    (run : putPrevEntity s (s.view.sfq e) e flags = some s') : Returned s s' [e] := by
  have release (a : State) (q : Gid) : (putPrevRelease a q e).books =
      { a.books with journal := .release q e a.rq.clockThread :: a.books.journal } := by
    simp [putPrevRelease, books_modSfq, books_emit]
  have view := putPrevEntity_view hier run
  have timeline (q : Gid) (x : EntId) (member : x ∈ s'.view.timeline q) :
      x ∈ s.view.timeline q ∨ x ∈ [e] ∧ s.view.sfq x = q := by
    rcases view with ⟨_, look⟩ | ⟨_, _, b, _, look⟩
    · rw [look] at member
      exact .inl member
    · rw [look] at member
      change x ∈ update s.view.timeline (s.view.sfq e) (e ::ₘ s.view.timeline (s.view.sfq e)) q at member
      by_cases here : q = s.view.sfq e
      · subst here
        rw [update_self] at member
        rcases Multiset.mem_cons.mp member with rfl | old
        · exact .inr ⟨List.mem_singleton_self _, rfl⟩
        · exact .inl old
      · rw [update_of_ne here] at member
        exact .inl member
  have frame : s'.view.frame = s.view.frame := by
    rcases view with ⟨_, look⟩ | ⟨_, _, b, _, look⟩ <;> rw [look] <;> rfl
  rcases putPrevEntity_parts run with ⟨_, rfl⟩ | ⟨_, a, b, first, second, rfl⟩
  · exact ⟨by rw [release], by rw [release], by rw [release], fun _ _ => by rw [release], fun _ _ => by rw [release],
      timeline, frame⟩
  · obtain ⟨next, last, clock, _, others, own⟩ := putPrevCharge_books flags current
    obtain ⟨_, queued⟩ := setRunq_spec (by simpa using hier) first
    obtain ⟨_, _, _, _, _, inserted, _⟩ := rawEnqueueEntity_spec _ _ _ second
    have books : (putPrevRelease b (s.view.sfq e) e).books.next = s.books.next ∧
        (putPrevRelease b (s.view.sfq e) e).books.last = s.books.last ∧
        (putPrevRelease b (s.view.sfq e) e).books.clock = s.books.clock := by
      rw [release, inserted, queued]
      exact ⟨next, last, clock⟩
    refine ⟨books.1, books.2.1, books.2.2, fun x out => ?_, fun x still => ?_, timeline, frame⟩
    · rw [release, inserted, queued]
      exact (others x (by simpa using out)).1
    · rw [release, inserted, queued]
      by_cases same : x = e
      · subst same
        exact own (still (List.mem_singleton_self _))
      · exact (others x same).2

theorem pssPutPrevWalk_returned {C : Conds} {d : Option EntId} {chain : List EntId} (inv : Inv C s chain d)
    (nodup : chain.Nodup) (pss : ∀ e ∈ chain, e.pss s.view.cls) (run : pssPutPrevWalk s chain flags = some s') :
    Returned s s' chain := by
  induction chain generalizing s with
  | nil =>
    cases run
    exact .refl _
  | cons e rest ih =>
    obtain ⟨others, nodup⟩ := List.nodup_cons.mp nodup
    unfold pssPutPrevWalk at run
    split at run
    · cases run
    · rename_i a step
      obtain ⟨inv', roster, _⟩ := putPrevEntity_inv inv others (pss e (List.mem_cons_self ..)) step
      have cls : a.view.cls = s.view.cls := (congrArg Roster.cls roster).trans (Roster.putBack_cls ..)
      have current : s.view.curr (s.view.sfq e) = some e := (inv.core.curr _ e).mpr ⟨List.mem_cons_self .., rfl⟩
      exact (putPrevEntity_returned inv.core.hier current step).cons
        (ih inv' nodup (fun x member => cls ▸ pss x (List.mem_cons_of_mem _ member)) run) others

/-- What `pss_put_prev_thread` leaves behind. -/
theorem pssPutPrevThread_returned {C : Conds} (inv : Inv C s (walkup s (some (.thread t))) none)
    (pss : s.view.cls t = .pss) (run : pssPutPrevThread s t flags = some s') :
    Returned s s' (walkup s (some (.thread t))) := by
  obtain ⟨a, walk, rfl⟩ := Option.map_eq_some_iff.mp run
  obtain ⟨rest, eq, _, nodup, groups⟩ := thread_chain inv.core.hier t
  have members (e : EntId) (member : e ∈ walkup s (some (.thread t))) : e.pss s.view.cls := by
    rw [eq] at member
    rcases List.mem_cons.mp member with rfl | above
    · exact pss
    · obtain ⟨g, rfl⟩ := groups e above
      trivial
  have walked := pssPutPrevWalk_returned inv nodup members walk
  exact ⟨walked.next, walked.last, walked.clock, walked.timing, walked.vruntime, walked.timeline, walked.frame⟩

end returned
end SfqSched
