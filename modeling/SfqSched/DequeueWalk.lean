import SfqSched.Walks

namespace SfqSched
open State Function

namespace View
variable {v : View} {L : List EntId} {q : Nat}

/-- A queue with some weight has an entity; a queue without any has none if all weights are positive. -/
theorem Core.weightless (core : v.Core L) {d : Option EntId} :
    (v.qweight q ≠ 0 → 0 < v.nr q) ∧ (v.Tight d → v.qweight q = 0 → v.nr q = 0) := by
  obtain ⟨m, mem, load, count⟩ := core.accounts q
  refine ⟨fun heavy => ?_, fun tight zero => ?_⟩
  · rw [count, Finset.card_pos]
    by_contra none_there
    rw [Finset.not_nonempty_iff_eq_empty] at none_there
    exact heavy (by rw [load, none_there, Finset.sum_empty])
  · rw [count, Finset.card_eq_zero]
    by_contra some_there
    obtain ⟨e, inside⟩ := Finset.nonempty_iff_ne_empty.mpr some_there
    obtain ⟨joined, pss, _⟩ := (mem e).mp inside
    have heavy := tight.weight e joined pss
    have total := Finset.sum_erase_add m v.weight inside
    omega

theorem Tight.loosen (tight : v.Tight none) (d : Option EntId) : v.Tight d :=
  { tight with groups := fun g pos inside _ => tight.groups g pos inside (by simp) }

end View

section
variable {C : Conds} {s s' : State} {L : List EntId}

theorem Inv.loosen (inv : Inv C s L none) (d : Option EntId) : Inv C s L d :=
  ⟨inv.core, fun positive => (inv.tight positive).loosen d, inv.filled.loosen d⟩

/-- The owner of a queue with weight is no loose end. -/
theorem Inv.settle {q : Nat} (inv : Inv C s L (seOf q)) (heavy : s.view.qweight q ≠ 0)
    (held : C.positive → 0 < q → s.view.joined (.group q)) : Inv C s L none := by
  have some_there := (inv.core.weightless (d := none)).1 heavy
  refine ⟨inv.core, fun positive => ?_, ?_⟩
  · have tight := inv.tight positive
    by_cases root : q = 0
    · simpa [seOf, root] using tight
    · simp only [seOf, root, if_false] at tight
      exact tight.settle (iff_of_true (held positive (by omega)) some_there)
  · have filled := inv.filled
    by_cases root : q = 0
    · simpa [seOf, root] using filled
    · simp only [seOf, root, if_false] at filled
      exact filled.settle fun _ => some_there

theorem seToTd_view (e : EntId) : seToTd s e = match e, s.view.myQ e with
    | .thread t, none => some t
    | _, _ => none := rfl

@[simp] theorem setNextCandidate_view (e : EntId) : (setNextCandidate s e).view = s.view :=
  (setNextCandidate_changes s e).view marking_view

@[simp] theorem setLastCandidate_view (e : EntId) : (setLastCandidate s e).view = s.view :=
  (setLastCandidate_changes s e).view marking_view

/-- Making an entity with a joined chain a candidate along that chain. -/
theorem marks_path {e : EntId} (inv : Inv C s L none) (rank : e.rank s.view.ngroups < s.view.ngroups + 1)
    (seated : C.positive → C.marks → s.view.seated e) {s' : State} (view : s'.view = s.view)
    (marked : s.books.Marked (onChain s.view (walkup s (some e))) s'.books) (steady : Steady s s') :
    Path C s s' := by
  refine .flow inv (.mark _ view marked steady fun q p ok => ⟨ok.2, fun positive marks => ?_⟩)
  exact (inv.tight positive).chain inv.core (inv.core.hier.chain rank) (seated positive marks) p ok.1

theorem setNextCandidate_marked (e : EntId) :
    s.books.Marked (onChain s.view (walkup s (some e))) (setNextCandidate s e).books := by
  unfold setNextCandidate
  split
  · exact .refl _
  · exact setCandidateWalk_marked ..

theorem setLastCandidate_marked (e : EntId) :
    s.books.Marked (onChain s.view (walkup s (some e))) (setLastCandidate s e).books := by
  unfold setLastCandidate
  split
  · exact .refl _
  · exact setCandidateWalk_marked ..

/-- What `pss_dequeue_thread` does after it has dequeued `se` from `q`. -/
def dequeueAbove (isSleep : Bool) (s : State) (q : Gid) (se : EntId) (rest : List EntId) (flags : Nat) :
    Option State :=
  if (s.sfq q).load.weight ≠ 0 then
    let s := match isSleep, (s.ent se).parent with
      | true, some p => setNextCandidate s p
      | _, _ => s
    some (updateSharesWalk s rest)
  else pssDequeueWalk isSleep s rest (flags ||| dequeueSleep)

theorem dequeueAbove_reaches {isSleep : Bool} {q : Nat} {e : EntId} {rest : List EntId} {flags : Nat}
    (inv : Inv C s L (seOf q)) (place : s.view.sfq e = q)
    (held : s.view.qweight q ≠ 0 → C.positive → 0 < q → s.view.joined (.group q))
    (further : s.view.qweight q = 0 → ∃ s', pssDequeueWalk isSleep s rest (flags ||| dequeueSleep) = some s' ∧
      Reaches C s s' L s.view.roster) :
    ∃ s', dequeueAbove isSleep s q e rest flags = some s' ∧ Reaches C s s' L s.view.roster := by
  unfold dequeueAbove
  split
  · rename_i heavy
    simp only [view_qweight] at heavy
    have held := held heavy
    have settled := inv.settle heavy held
    refine ⟨_, rfl, ?_⟩
    split
    · rename_i p parent
      obtain ⟨pos, inside, rfl⟩ := inv.core.hier.parent_some (e := e) parent
      have rank : (EntId.group (s.view.sfq e)).rank s.view.ngroups < s.view.ngroups + 1 := Nat.lt_succ_of_lt inside
      have seated (positive : C.positive) (_ : C.marks) : s.view.seated (.group (s.view.sfq e)) :=
        ⟨place ▸ held positive (place ▸ pos), trivial⟩
      have path : Path C s (setNextCandidate s (.group (s.view.sfq e))) :=
        marks_path settled rank seated (by simp) (setNextCandidate_marked _) (setNextCandidate_steady ..)
      have marked : Inv C (setNextCandidate s (.group (s.view.sfq e))) L none := settled.of_bones (by simp)
      have walk := (updateSharesWalk_reaches marked rest).1
      rw [setNextCandidate_view] at walk
      exact walk.after path (by simp)
    · exact (updateSharesWalk_reaches settled rest).1
  · rename_i light
    exact further (by simpa using light)

/-- `dequeue_entity` finds an entity where its flags say it is, whether it is joined or not. -/
theorem dequeueEntity_total {q : Nat} {e : EntId} {flags : Nat} (core : s.view.Core L) :
    ∃ s', dequeueEntity s q e flags = some s' := by
  by_cases joined : s.view.joined e
  · unfold dequeueEntity
    rw [view_joined, if_pos joined]
    change ∃ s', (if (dequeueClear s q e).view.onSfq e then _ else _) = some s'
    split
    · rename_i there
      obtain ⟨a, raw⟩ : ∃ a, rawDequeueEntity (dequeueClear s q e) q e = some a := ⟨_, if_pos there⟩
      refine ⟨dequeueAccount a q e flags, ?_⟩
      change (rawDequeueEntity (dequeueClear s q e) q e).bind _ = _
      rw [raw]
      rfl
    · exact ⟨dequeueAccount (dequeueClear s q e) q e flags, rfl⟩
  · have apart : s.view.joined e = false := by simpa using joined
    have off : s.view.onSfq e = false := core.off apart
    have out : s.view.onRunq e = false := by
      by_contra there
      exact joined (core.onRunq e (by simpa using there)).1
    refine ⟨s, ?_⟩
    unfold dequeueEntity
    rw [view_joined, if_neg joined, view_onRunq, view_onSfq, off, out]
    rfl

theorem pssDequeueWalk_cons {isSleep : Bool} {e : EntId} {rest : List EntId} {flags : Nat} {s₁ : State}
    (step : dequeueEntity s (s.view.sfq e) e flags = some s₁) :
    pssDequeueWalk isSleep s (e :: rest) flags = dequeueAbove isSleep s₁ (s.view.sfq e) e rest flags := by
  conv_lhs => unfold pssDequeueWalk
  simp only [view_sfq, step]
  rfl

/-- Dequeuing an entity leaves its group joined, to be dequeued next or to stay. -/
theorem dequeueEntity_held {e : EntId} {d : Option EntId} (inv : Inv C s L d)
    (dangling : d = none ∨ d = some e) (seated : s.view.seated e)
    {w : EntId → Nat} {qw : Nat → Nat} {rw' : Nat}
    (look : s'.view = (s.view.dequeued (s.view.sfq e) e).weighed w qw rw') (positive : C.positive)
    (pos : 0 < s.view.sfq e) : s'.view.joined (.group (s.view.sfq e)) := by
  have other : EntId.group (s.view.sfq e) ≠ e := by
    intro same
    exact inv.core.hier.not_own_queue pos (by rw [same])
  have full := ((inv.core.accounts _).holds seated.1 seated.2).2
  have apart : some (EntId.group (s.view.sfq e)) ≠ d := by
    rcases dangling with rfl | rfl <;> simp [other]
  rw [look]
  simp only [View.weighed, View.dequeued, View.setJoined, View.unaccount, View.withdraw, View.unboosted]
  simpa [other] using ((inv.tight positive).groups _ pos (inv.core.hier.inside e) apart).mpr full

/-- The walk of `pss_dequeue_thread` above the thread. `o` is the group whose
queue has just lost its last weight, if there is one. -/
theorem pssDequeueWalk_groups {isSleep : Bool} {o : Option EntId} {chain : List EntId}
    (links : Chain s.view.parent o chain) {flags : Nat} (inv : Inv C s L o)
    (empty : ∀ p, o = some p → ∃ g, p = .group g ∧ 0 < g ∧ g < s.view.ngroups ∧ s.view.qweight g = 0) :
    ∃ s', pssDequeueWalk isSleep s chain flags = some s' ∧ Reaches C s s' L s.view.roster := by
  generalize up : s.view.parent = parent at links
  induction links generalizing s flags with
  | root => exact ⟨s, rfl, .refl inv⟩
  | @link p rest links ih =>
    obtain ⟨g, rfl, pos, inside, light⟩ := empty p rfl
    obtain ⟨s₁, step⟩ : ∃ s₁, dequeueEntity s (s.view.sfq (.group g)) (.group g) flags = some s₁ :=
      dequeueEntity_total inv.core
    rw [pssDequeueWalk_cons step]
    have vacant (positive : C.positive) : s.view.nr g = 0 := inv.core.weightless.2 (inv.tight positive) light
    by_cases joined : s.view.joined (.group g)
    · have seated : s.view.seated (.group g) := ⟨joined, trivial⟩
      have micro : Flow C s s₁ := .dequeue _ _ step seated (by simp)
      obtain ⟨inv₁, w, qw, rw', look, _⟩ :=
        dequeueEntity_inv inv (.inr rfl) step seated (by rintro positive g' ⟨⟩; exact vacant positive)
      have roster : s₁.view.roster = s.view.roster := by
        rw [look]
        simp [View.roster, View.weighed, View.dequeued, View.setJoined, View.unaccount, View.withdraw, View.unboosted]
      have frame : s₁.view.frame = s.view.frame := by rw [look]; rfl
      have place : s₁.view.sfq (.group g) = s.view.sfq (.group g) := by rw [look]; rfl
      have held := dequeueEntity_held inv (.inr rfl) seated look
      obtain ⟨s', run, walk⟩ : ∃ s', dequeueAbove isSleep s₁ (s.view.sfq (.group g)) (.group g) rest flags = some s' ∧
          Reaches C s₁ s' L s₁.view.roster := by
        refine dequeueAbove_reaches inv₁ place (fun _ => held) fun zero => ?_
        have up₁ : s₁.view.parent = parent := (congrArg View.Frame.parent frame).trans up
        have inv₂ : Inv C s₁ L (parent (.group g)) := by
          rw [← up, inv.core.hier.link]
          exact inv₁
        refine ih inv₂ (fun p at_p => ?_) up₁
        obtain ⟨pos', inside', rfl⟩ := inv.core.hier.parent_some (up ▸ at_p)
        exact ⟨_, rfl, pos', by rw [look]; exact inside', zero⟩
      rw [roster] at walk
      exact ⟨s', run, walk.after (.flow inv micro) frame⟩
    · obtain rfl := dequeueEntity_apart step (by simpa using joined)
      have settled : Inv C s₁ L none :=
        ⟨inv.core, fun positive => (inv.tight positive).settle (iff_of_false joined (by simp [vacant positive])),
          inv.filled.settle fun there => absurd there joined⟩
      refine dequeueAbove_reaches (settled.loosen _) rfl (fun heavy positive pos' => ?_) (fun zero => ?_)
      · exact ((settled.tight positive).groups _ pos' (inv.core.hier.inside _) (by simp)).mpr
          ((inv.core.weightless (d := none)).1 heavy)
      · refine ih (settled.loosen _) (fun p at_p => ?_) up
        obtain ⟨pos', inside', rfl⟩ := inv.core.hier.parent_some (up ▸ at_p)
        exact ⟨_, rfl, pos', inside', zero⟩

theorem rqRunRem_view {t : Tid} (run : rqRunRem s t = some s') :
    s'.view =
      { s.view with
        nrRunning := s.view.nrRunning - 1
        nrSysrunning := if s.view.noLoad t then s.view.nrSysrunning else s.view.nrSysrunning - 1 } := by
  unfold rqRunRem at run
  split at run
  · cases run
  · dsimp only at run
    cases run
    split_ifs <;> simp_all [view_modRq]

theorem dequeued_roster {v : View} {q : Nat} {t : Tid} {w : EntId → Nat} {qw : Nat → Nat} {rw' : Nat} :
    ((v.dequeued q (.thread t)).weighed w qw rw').roster =
      { v.roster with joined := update v.roster.joined t false } := by
  simp [View.roster, View.weighed, View.dequeued, View.setJoined, View.unaccount, View.withdraw, View.unboosted,
    update_thread]

/-- `pss_dequeue_thread` of a joined thread of its class. -/
theorem pssDequeueThread_reaches {t : Tid} {flags : Nat} (inv : Inv C s L none) (pss : s.view.cls t = .pss)
    (joined : s.view.joined (.thread t)) (counted : s.view.roster.Counted)
    (form : forked t → s.view.initial (.thread t) = false ∧ (flags &&& dequeueSleep ≠ 0 ↔ s.view.resting t)) :
    ∃ s', pssDequeueThread s t flags = some s' ∧ Reaches C s s' L (s.view.roster.detach t) := by
  have links := inv.core.hier.chain (e := .thread t) (Nat.lt_succ_self _)
  obtain ⟨rest, chain⟩ : ∃ rest, walkup s (some (.thread t)) = .thread t :: rest := ⟨_, rfl⟩
  rw [chain] at links
  cases links with
  | link links =>
    obtain ⟨s₁, step⟩ : ∃ s₁, dequeueEntity s (s.view.sfq (.thread t)) (.thread t) flags = some s₁ :=
      dequeueEntity_total inv.core
    have seated : s.view.seated (.thread t) := ⟨joined, pss⟩
    have micro : Flow C s s₁ := .dequeue _ _ step seated (by rintro u ⟨⟩; exact form)
    obtain ⟨inv₁, w, qw, rw', look, _⟩ := dequeueEntity_inv inv (.inl rfl) step seated (by simp)
    have frame : s₁.view.frame = s.view.frame := by rw [look]; rfl
    have up : s₁.view.parent = s.view.parent := congrArg View.Frame.parent frame
    have place : s₁.view.sfq (.thread t) = s.view.sfq (.thread t) := by rw [look]; rfl
    have held := dequeueEntity_held inv (.inl rfl) seated look
    have inv₂ : Inv C s₁ L (s.view.parent (.thread t)) := by
      rw [inv.core.hier.link]
      exact inv₁
    obtain ⟨a, above, further⟩ : ∃ a, dequeueAbove (flags &&& dequeueSleep ≠ 0) s₁ (s.view.sfq (.thread t)) (.thread t)
        rest flags = some a ∧ Reaches C s₁ a L s₁.view.roster := by
      refine dequeueAbove_reaches inv₁ place (fun _ => held) fun zero =>
        pssDequeueWalk_groups (by rw [up]; exact links) inv₂ fun p at_p => ?_
      obtain ⟨pos', inside', rfl⟩ := inv.core.hier.parent_some at_p
      exact ⟨_, rfl, pos', by rw [look]; exact inside', zero⟩
    have roster : a.view.roster = { s.view.roster with joined := update s.view.roster.joined t false } := by
      rw [further.roster, look, dequeued_roster]
    obtain ⟨s', rem⟩ : ∃ s', rqRunRem a t = some s' := by
      have same : a.rq.nrRunning = s.view.roster.nrRunning := congrArg Roster.nrRunning roster
      have some_there : a.rq.nrRunning ≠ 0 := by
        rw [same]
        exact (counted.enough (t := t) joined).1.ne'
      exact ⟨_, if_neg some_there⟩
    have run : pssDequeueThread s t flags = some s' := by
      refine Option.bind_eq_some_iff.mpr ⟨a, ?_, rem⟩
      rw [chain, pssDequeueWalk_cons step]
      exact above
    have enough : a.view.noLoad t = false → 0 < a.view.nrSysrunning := by
      have same : a.view.noLoad = s.view.noLoad := congrArg Roster.noLoad roster
      have same' : a.view.nrSysrunning = s.view.nrSysrunning := congrArg Roster.nrSysrunning roster
      rw [same, same']
      exact (counted.enough (t := t) joined).2
    have inv' : Inv C s' L none := further.inv.of_bones (by rw [rqRunRem_view rem]; rfl)
    refine ⟨s', run, (Path.flow inv micro).trans (further.path.trans (.flow further.inv (.uncount t rem enough))), inv',
      ?_, ?_⟩
    · have counts : s'.view.roster =
          { a.view.roster with
            nrRunning := a.view.roster.nrRunning - 1
            nrSysrunning :=
              if a.view.roster.noLoad t then a.view.roster.nrSysrunning else a.view.roster.nrSysrunning - 1 } := by
        rw [rqRunRem_view rem]
        rfl
      rw [counts, roster]
      rfl
    · rw [rqRunRem_view rem]
      exact further.frame.trans frame

end
end SfqSched
