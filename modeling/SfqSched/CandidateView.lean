import SfqSched.QueueView

namespace SfqSched
open State Function

def Books.candidate (b : Books) : Candidate → Gid → Option EntId
  | .skip => b.skip
  | .next => b.next
  | .last => b.last

/-- A candidate by its name. -/
@[simp] theorem books_candidate (s : State) (c : Candidate) (q : Gid) :
    (s.sfq q).candidate c = s.books.candidate c q := by cases c <;> rfl

/-- Nothing changes but candidates, and every new one is allowed by `ok`. -/
structure Books.Marked (ok : Gid → EntId → Prop) (b b' : Books) : Prop where
  rest : b' = { b with skip := b'.skip, next := b'.next, last := b'.last }
  pointer : ∀ c q e, b'.candidate c q = some e → b.candidate c q = some e ∨ ok q e

namespace Books.Marked
variable {ok ok' : Gid → EntId → Prop} {b b' b'' : Books}

theorem refl (b : Books) : Marked ok b b := ⟨rfl, fun _ _ _ old => .inl old⟩

theorem trans (h : Marked ok b b') (h' : Marked ok b' b'') : Marked ok b b'' := by
  refine ⟨by rw [h'.rest, h.rest], fun c q e new => ?_⟩
  rcases h'.pointer c q e new with old | fresh
  · exact h.pointer c q e old
  · exact .inr fresh

/-- What is allowed may be widened. -/
theorem mono (h : Marked ok b b') (weaker : ∀ q e, ok q e → ok' q e) : Marked ok' b b' :=
  ⟨h.rest, fun c q e new => (h.pointer c q e new).imp id (weaker q e)⟩

end Books.Marked

section marks
variable (s : State)

@[simp] theorem setCandidate_view (q : Gid) (c : Candidate) (o : Option EntId) :
    (s.modSfq q fun sfq => sfq.setCandidate c o).view = s.view := (setCandidate_changes s q c o).view marking_view

/-- One candidate of one queue is stored. -/
theorem setCandidate_candidate (q : Gid) (c c' : Candidate) (o : Option EntId) :
    (s.modSfq q fun sfq => sfq.setCandidate c o).books.candidate c' =
      if c' = c then update (s.books.candidate c) q o else s.books.candidate c' := by
  cases c <;> cases c' <;> simp [books_modSfq, Sfq.setCandidate, Books.candidate]

/-- An allowed candidate is stored, or none. -/
theorem setCandidate_marked {ok : Gid → EntId → Prop} (q : Gid) (c : Candidate) (o : Option EntId)
    (allowed : ∀ e, o = some e → ok q e) :
    s.books.Marked ok (s.modSfq q fun sfq => sfq.setCandidate c o).books := by
  refine ⟨by cases c <;> simp [books_modSfq, Sfq.setCandidate], fun c' q' e new => ?_⟩
  rw [setCandidate_candidate] at new
  split at new
  · rename_i same
    subst same
    by_cases here : q' = q
    · subst here
      exact .inr (allowed e (by simpa using new))
    · exact .inl (by simpa [here] using new)
  · exact .inl new

@[simp] theorem setCandidateWalk_view (c : Candidate) (chain : List EntId) :
    (setCandidateWalk c s chain).view = s.view := (setCandidateWalk_changes s c chain).view marking_view

@[simp] theorem setSkipWalk_view (chain : List EntId) : (setSkipWalk s chain).view = s.view :=
  (setSkipWalk_changes s chain).view marking_view

@[simp] theorem clearCandidateWalk_view (c : Candidate) (chain : List EntId) :
    (clearCandidateWalk c s chain).view = s.view := (clearCandidateWalk_changes s c chain).view marking_view

/-- An entity of a chain may become a candidate on the queue it stands on. -/
def onChain (v : View) (chain : List EntId) (q : Gid) (e : EntId) : Prop := e ∈ chain ∧ v.sfq e = q

/-- The candidates that the walk up sets are the entities of the chain, each at its own queue. -/
theorem setCandidateWalk_marked (c : Candidate) (chain : List EntId) :
    s.books.Marked (onChain s.view chain) (setCandidateWalk c s chain).books := by
  induction chain generalizing s with
  | nil => exact .refl _
  | cons se rest ih =>
    unfold setCandidateWalk
    refine (setCandidate_marked s _ c _ ?_).trans ((ih _).mono ?_)
    · rintro e ⟨⟩
      exact ⟨List.mem_cons_self .., rfl⟩
    · rintro q e ⟨member, place⟩
      exact ⟨List.mem_cons_of_mem _ member, by simpa using place⟩

/-- The same for the walk that stops where an entity is alone. -/
theorem setSkipWalk_marked (chain : List EntId) :
    s.books.Marked (onChain s.view chain) (setSkipWalk s chain).books := by
  induction chain generalizing s with
  | nil => exact .refl _
  | cons se rest ih =>
    have first : s.books.Marked (onChain s.view (se :: rest))
        (s.modSfq (s.ent se).sfq fun sfq => sfq.setCandidate .skip (some se)).books := by
      refine setCandidate_marked s _ .skip _ ?_
      rintro e ⟨⟩
      exact ⟨List.mem_cons_self .., rfl⟩
    unfold setSkipWalk
    dsimp only
    split
    · exact first
    · refine first.trans ((ih _).mono ?_)
      rintro q e ⟨member, place⟩
      exact ⟨List.mem_cons_of_mem _ member, by simpa using place⟩

/-- To clear allows anything to be a candidate. -/
theorem clearCandidateWalk_marked {r : Gid → EntId → Prop} (c : Candidate) (chain : List EntId) :
    s.books.Marked r (clearCandidateWalk c s chain).books := by
  induction chain generalizing s with
  | nil => exact .refl _
  | cons se rest ih =>
    unfold clearCandidateWalk
    dsimp only
    split
    · exact (setCandidate_marked s _ c none (by simp)).trans (ih _)
    · exact .refl _

end marks

section clear
variable (s : State) (q : Gid) (se : EntId)

/-- One `if` of `clear_candidates`. -/
def clearStep (c : Candidate) (s : State) (q : Gid) (se : EntId) : State :=
  if (s.sfq q).candidate c = some se then clearCandidateWalk c s (walkup s (some se)) else s

/-- The three tests of `clear_candidates`, one after the other. -/
theorem clearCandidates_steps :
    clearCandidates s q se = clearStep .last (clearStep .next (clearStep .skip s q se) q se) q se := rfl

theorem clearStep_view (c : Candidate) : (clearStep c s q se).view = s.view := by
  unfold clearStep
  split <;> simp

theorem clearStep_marked {r : Gid → EntId → Prop} (c : Candidate) :
    s.books.Marked r (clearStep c s q se).books := by
  unfold clearStep
  split
  · exact clearCandidateWalk_marked ..
  · exact .refl _

@[simp] theorem clearCandidates_view : (clearCandidates s q se).view = s.view :=
  (clearCandidates_changes s se q).view marking_view

theorem clearCandidates_marked {r : Gid → EntId → Prop} : s.books.Marked r (clearCandidates s q se).books :=
  ((clearStep_marked s q se .skip).trans (clearStep_marked _ q se .next)).trans (clearStep_marked _ q se .last)

/-- At its first level at least the walk clears the entity. -/
theorem clearCandidateWalk_cleared (c : Candidate) (rest : List EntId) :
    (clearCandidateWalk c s (se :: rest)).books.candidate c (s.view.sfq se) ≠ some se := by
  unfold clearCandidateWalk
  dsimp only
  split
  · intro still
    rcases (clearCandidateWalk_marked (r := fun _ _ => False) _ c rest).pointer _ _ _ still with old | never
    · simp [setCandidate_candidate] at old
    · exact never
  · rename_i other
    simpa using other

/-- If the entity was the candidate it is not afterwards, and if it was not nothing is cleared. -/
theorem clearStep_cleared (c : Candidate) :
    (clearStep c s (s.view.sfq se) se).books.candidate c (s.view.sfq se) ≠ some se := by
  unfold clearStep
  split
  · exact clearCandidateWalk_cleared s se c _
  · rename_i other
    simpa using other

/-- After `clear_candidates` no pointer of the entity's queue shows it. -/
theorem clearCandidates_cleared (c : Candidate) :
    (clearCandidates s (s.view.sfq se) se).books.candidate c (s.view.sfq se) ≠ some se := by
  have stays (c c' : Candidate) (s' : State) (gone : s'.books.candidate c (s.view.sfq se) ≠ some se) :
      (clearStep c' s' (s.view.sfq se) se).books.candidate c (s.view.sfq se) ≠ some se := by
    intro still
    exact ((clearStep_marked (r := fun _ _ => False) s' _ se c').pointer _ _ _ still).elim gone id
  have first := clearStep_cleared s se .skip
  have second := clearStep_cleared (clearStep .skip s (s.view.sfq se) se) se .next
  have third := clearStep_cleared
    (clearStep .next (clearStep .skip s (s.view.sfq se) se) (s.view.sfq se) se) se .last
  simp only [clearStep_view] at second third
  rw [clearCandidates_steps]
  cases c
  · exact stays _ _ _ (stays _ _ _ first)
  · exact stays _ _ _ second
  · exact third

end clear
end SfqSched
