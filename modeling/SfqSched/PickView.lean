import SfqSched.SchedFrame
import SfqSched.Steady

namespace SfqSched
open State Function

section weights

/-- A cached inverse is never zero, so it is computed once. -/
theorem cacheInv_set' (lw : LoadWeight) : lw.cacheInv.invWeight ≠ 0 := by
  unfold LoadWeight.cacheInv
  split
  · dsimp only
    split
    · decide
    · rename_i light
      split
      · decide
      · rename_i heavy
        have below : 0 < wmultConst / lw.weight := Nat.div_pos (by omega) (by omega)
        omega
  · assumption

theorem scaleByWeight_cached (d w d' w' : Nat) (lw : LoadWeight) :
    (scaleByWeight d w (scaleByWeight d' w' lw).2).1 = (scaleByWeight d w lw).1 := by
  have once : lw.cacheInv.cacheInv = lw.cacheInv := cacheInv_set (cacheInv_set' lw)
  simp only [scaleByWeight, once]

/-- What `scale_delta` returns does not depend on which inverses are cached already. -/
theorem scaleDelta_cached (s : State) (d d' : Nat) (e e' : EntId) :
    (scaleDelta (scaleDelta s d' e').2 d e).1 = (scaleDelta s d e).1 := by
  by_cases same : e = e'
  · subst same
    by_cases base : (s.ent e).load.weight = nice0Weight
    · simp only [scaleDelta, base, if_true]
    · simp only [scaleDelta, base, if_false, State.modEnt, update_self, scaleByWeight_weight, scaleByWeight_cached]
  · have other : ((scaleDelta s d' e').2.ent e) = s.ent e := by
      unfold scaleDelta
      split
      · rfl
      · simp [State.modEnt, same]
    unfold scaleDelta at other ⊢
    rw [other]
    split <;> rfl

end weights

section preempt
variable (s : State) (c first : EntId)

@[simp] theorem wakeupPreemptEntity_view : (wakeupPreemptEntity s c first).2.view = s.view :=
  (wakeupPreemptEntity_changes s c first).view caching_view

@[simp] theorem wakeupPreemptEntity_books : (wakeupPreemptEntity s c first).2.books = s.books :=
  (wakeupPreemptEntity_changes s c first).books caching_books

theorem wakeupPreemptEntity_steady : Steady s (wakeupPreemptEntity s c first).2 := by
  unfold wakeupPreemptEntity wakeupGran
  dsimp only
  split
  · split <;> exact scaleDelta_steady ..
  · exact .refl s

theorem wakeupPreemptEntity_gran (e : EntId) :
    (wakeupGran (wakeupPreemptEntity s c first).2 e).1 = (wakeupGran s e).1 := by
  have cached := scaleDelta_cached s s.tun.wakeupGranularity s.tun.wakeupGranularity e first
  have tun : (scaleDelta s s.tun.wakeupGranularity first).2.tun = s.tun := (scaleDelta_steady ..).tun
  unfold wakeupPreemptEntity wakeupGran
  dsimp only
  split
  · split <;> rw [tun] <;> exact cached
  · rfl

/-- An entity that is not far behind another. -/
def Books.close (b : Books) (gran : Nat) (e first : EntId) : Prop :=
  sdiff (b.vruntime e) (b.vruntime first) ≤ max 0 (BitVec.ofNat 64 gran).toInt

theorem wakeupPreemptEntity_close (near : (wakeupPreemptEntity s c first).1 < 1) :
    s.books.close (wakeupGran s first).1 c first := by
  unfold wakeupPreemptEntity at near
  change sdiff (s.ent c).vruntime (s.ent first).vruntime ≤ _
  dsimp only at near
  split at near
  · split at near
    · exact absurd near (Int.lt_irrefl 1)
    · omega
  · omega

end preempt

/-- What holds of the entity chosen so far by `pick_next_entity`. -/
structure Chosen (s : State) (q : Gid) (first : EntId) (acc : EntId × State) : Prop where
  view : acc.2.view = s.view
  books : acc.2.books = s.books
  steady : Steady s acc.2
  gran : ∀ e, (wakeupGran acc.2 e).1 = (wakeupGran s e).1
  which : acc.1 = first ∨
    (acc.1 ∈ s.books.seq q ∨ ∃ c, s.books.candidate c q = some acc.1) ∧
      s.books.close (wakeupGran s first).1 acc.1 first

theorem Chosen.prefer {s : State} {q : Gid} {first : EntId} {acc : EntId × State} (h : Chosen s q first acc)
    (o : Option EntId) (known : ∀ e, o = some e → e ∈ s.books.seq q ∨ ∃ c, s.books.candidate c q = some e) :
    Chosen s q first (preferCandidate o first acc) := by
  cases o with
  | none => exact h
  | some c =>
    simp only [preferCandidate]
    refine ⟨by simp [h.view], by simp [h.books], h.steady.trans (wakeupPreemptEntity_steady ..), fun e => ?_, ?_⟩
    · rw [wakeupPreemptEntity_gran, h.gran]
    · split
      · rename_i near
        refine .inr ⟨known c rfl, ?_⟩
        have close := wakeupPreemptEntity_close _ _ _ near
        rw [h.books, h.gran] at close
        exact close
      · exact h.which

theorem rbNext_mem {seq : List EntId} {e next : EntId} (h : rbNext seq e = some next) : next ∈ seq := by
  induction seq with
  | nil => cases h
  | cons a rest ih =>
    unfold rbNext at h
    split at h
    · exact List.mem_cons_of_mem _ (List.mem_of_mem_head? h)
    · exact List.mem_cons_of_mem _ (ih h)

/-- `pick_next_entity` returns the first entity of the timeline, or another of
the timeline or a candidate that is close to it. -/
theorem pickNextEntity_spec {s s' : State} {q : Gid} {e : EntId} (run : pickNextEntity s q = some (e, s')) :
    ∃ first gran a, s.books.leftmost q = some first ∧ a.view = s.view ∧ a.books = s.books ∧ Steady s a ∧
      s' = clearCandidates (a.emit (.pick q (s.books.seq q) first gran e)) q e ∧
      (e = first ∨ (e ∈ s.books.seq q ∨ ∃ c, s.books.candidate c q = some e) ∧ s.books.close gran e first) := by
  unfold pickNextEntity at run
  split at run
  · cases run
  · rename_i first isFirst
    have start : Chosen s q first (first, s) := ⟨rfl, rfl, .refl s, fun _ => rfl, .inl rfl⟩
    have second := start.prefer (if (s.sfq q).skip = some first then rbNext (s.sfq q).seq first else none) (by
      intro e new
      split at new
      · exact .inl (rbNext_mem new)
      · cases new)
    have third := second.prefer (s.sfq q).last (fun e new => .inr ⟨.last, new⟩)
    have fourth := third.prefer (s.sfq q).next (fun e new => .inr ⟨.next, new⟩)
    dsimp only at run
    generalize preferCandidate (s.sfq q).next first _ = chosen at fourth run
    obtain ⟨x, a⟩ := chosen
    cases run
    have seq : (a.sfq q).seq = s.books.seq q := congrFun (congrArg Books.seq fourth.books) q
    refine ⟨first, (wakeupGran s first).1, a, isFirst, fourth.view, fourth.books, fourth.steady, ?_, fourth.which⟩
    rw [seq, fourth.gran]

theorem pickNextEntity_view {s s' : State} {q : Gid} {e : EntId} (run : pickNextEntity s q = some (e, s')) :
    s'.view = s.view := by
  obtain ⟨_, _, _, _, view, _, _, rfl, _⟩ := pickNextEntity_spec run
  simp [view]

end SfqSched
