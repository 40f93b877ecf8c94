import SfqSched.Weights

namespace SfqSched
open State

section shares
variable {s : State} {g : Gid} {se : EntId}

theorem updateSharesWalk_shares (s : State) (chain : List EntId) : (updateSharesWalk s chain).view.shares = s.view.shares := by
  induction chain generalizing s with
  | nil => rfl
  | cons se rest ih =>
    have step : (updateSfqShares s (s.ent se).sfq).view.shares = s.view.shares := by
      rw [updateSfqShares_view, View.reshare_shares]
    exact (ih (updateSfqShares s (s.ent se).sfq)).trans step

theorem pssAllocSchedGroup_shares (s : State) (new parent : Gid) (shares : Nat) :
    ((pssAllocSchedGroup s new parent shares).grp new).shares = allocShares shares := by
  simp only [pssAllocSchedGroup, modGrp, modSfq, modEnt, Function.update_self]

theorem clampShares_bounds (shares : Nat) : minShares ≤ clampShares shares ∧ clampShares shares ≤ maxShares := by
  unfold clampShares minShares maxShares
  split_ifs <;> omega

/-- A request of `0` ends as `0`, any other one between the bounds. -/
theorem setShares_stored (owner : (s.grp g).se = some se) (shares : Nat) :
    (pssSchedGroupSetShares s g shares).1 = 0 ∧
      ((pssSchedGroupSetShares s g shares).2.grp g).shares = if shares = 0 then 0 else clampShares shares := by
  have walked (s : State) (stored : Nat) (chain : State → List EntId) :
      ((updateSharesWalk (s.modGrp g fun sg => { sg with shares := stored })
        (chain (s.modGrp g fun sg => { sg with shares := stored }))).grp g).shares = stored := by
    have kept := congrFun (updateSharesWalk_shares (s.modGrp g fun sg => { sg with shares := stored })
      (chain (s.modGrp g fun sg => { sg with shares := stored }))) g
    refine Eq.trans kept ?_
    change ((s.modGrp g fun sg => { sg with shares := stored }).grp g).shares = stored
    simp only [modGrp, Function.update_self]
  unfold pssSchedGroupSetShares
  rw [owner]
  by_cases none : shares = 0
  · have other : ¬0 = ((s.modGrp g fun sg => { sg with shares := nice0Weight }).grp g).shares := by
      simp only [modGrp, Function.update_self]
      decide
    subst none
    simp only [if_true, if_neg other]
    exact ⟨trivial, walked _ 0 fun s => walkup s (some se)⟩
  · simp only [if_neg none]
    split
    · rename_i same
      exact ⟨rfl, same.symm⟩
    · exact ⟨rfl, walked s _ fun s => walkup s (some se)⟩

end shares

/-- Both functions store one value for a request, and it is between the bounds. -/
def SharesAgree (s : State) (g new parent : Gid) (request : BitVec 32) : Prop :=
  (pssSchedGroupSetShares s g request.toNat).1 = 0 ∧
    ((pssSchedGroupSetShares s g request.toNat).2.grp g).shares =
      ((pssAllocSchedGroup s new parent request.toNat).grp new).shares ∧
    minShares ≤ ((pssSchedGroupSetShares s g request.toNat).2.grp g).shares ∧
    ((pssSchedGroupSetShares s g request.toNat).2.grp g).shares ≤ maxShares

/-- They do so for every request but `0`. -/
theorem shares_agree (s : State) (g new parent : Gid) (se : EntId) (owner : (s.grp g).se = some se) (request : BitVec 32) :
    SharesAgree s g new parent request ↔ request ≠ 0 := by
  obtain ⟨accepted, stored⟩ := setShares_stored owner request.toNat
  unfold SharesAgree
  rw [stored, pssAllocSchedGroup_shares]
  by_cases none : request = 0
  · subst none
    refine iff_of_false ?_ fun some_request => some_request rfl
    rintro ⟨_, same, _⟩
    exact absurd same (by decide)
  · have some_request : request.toNat ≠ 0 := fun zero_request => none (BitVec.eq_of_toNat_eq zero_request)
    have bounds := clampShares_bounds request.toNat
    rw [if_neg some_request, allocShares, if_neg some_request]
    exact iff_of_true ⟨accepted, rfl, bounds⟩ none

/-- The first group of a fresh system is given 5000 shares. -/
theorem shares_agree_first :
    SharesAgree (schedGroupCreate (bootMemory plainKernel {}) 0 0) 1 2 1 5000 :=
  (shares_agree (schedGroupCreate (bootMemory plainKernel {}) 0 0) 1 2 1 (.group 1) (by decide) 5000).mpr (by decide)

/-- Given 0, it keeps 0, and a new group gets the weight of nice 0. -/
theorem shares_agree_zero :
    ¬∀ (s : State) (g new parent : Gid) (se : EntId), (s.grp g).se = some se →
      ∀ request, SharesAgree s g new parent request := by
  intro claimed
  have owner : ((schedGroupCreate (bootMemory plainKernel {}) 0 0).grp 1).se = some (.group 1) := by decide
  obtain ⟨_, same, _⟩ := claimed (schedGroupCreate (bootMemory plainKernel {}) 0 0) 1 2 1 (.group 1) owner 0
  rw [(setShares_stored owner _).2, pssAllocSchedGroup_shares] at same
  exact absurd same (by decide)

end SfqSched
