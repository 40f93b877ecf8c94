import SfqSched.MoveSteps

namespace SfqSched
open State Function

section shares
variable {C : Conds} {s s' : State} {L : List EntId} {t : Tid} {g : Gid}

theorem schedExitThread_reached (stands : Stands C s (some s.curthread)) (t : Tid) : Reached C s (schedExitThread s t) := by
  have unseen : Unseen s (schedExitThread s t) := threads_unseen s _ fun l => l.filter (· ≠ t)
  exact (unseen.reaches stands.inv).reached stands

theorem sysctl_reached {write : Sysctl} {tun : Tunables} (stands : Stands C s (some s.curthread))
    (new : sysctlWrite s.tun write = some tun) : Reached C s { s with tun := tun } := by
  have store : Reaches C s { s with tun := tun } _ s.view.roster :=
    ⟨.one stands.inv (.sysctl write tun new rfl), stands.inv.of_bones rfl, rfl, rfl⟩
  exact store.reached stands

/-- The store of the two share functions. -/
def storeShares (s : State) (g : Gid) (shares : Nat) : State := s.modGrp g fun sg => { sg with shares := shares }

theorem storeShares_view (s : State) (g : Gid) (shares : Nat) :
    (storeShares s g shares).view = { s.view with shares := update s.view.shares g shares } := by
  unfold storeShares
  rw [view_modGrp]
  simp

theorem storeShares_reached {shares : Nat} (stands : Stands C s (some s.curthread)) (pos : C.positive → 0 < shares)
    (calm : C.calm → s.view.joined (.group g) → shares = s.view.shares g) : Reached C s (storeShares s g shares) := by
  have core : (storeShares s g shares).view.Core (currentOn s (some s.curthread)) := by
    rw [storeShares_view]
    exact { stands.inv.core with hier := { stands.inv.core.hier with } }
  have tight (positive : C.positive) : (storeShares s g shares).view.Tight none := by
    rw [storeShares_view]
    refine { stands.inv.tight positive with shares := fun h above below => ?_ }
    by_cases same : h = g
    · simpa [same] using pos positive
    · simpa [same] using (stands.inv.tight positive).shares h above below
  have chain : currentOn (storeShares s g shares) (some s.curthread) = currentOn s (some s.curthread) := by
    refine currentOn_same (t := s.curthread + 1) stands.inv.core.hier core.hier ?_ (fun e _ => ?_) (by simp)
    · rw [storeShares_view]
    · rw [storeShares_view]
  refine ⟨.one stands.inv (.setShares g shares rfl calm), ?_, ?_⟩
  · show Inv C (storeShares s g shares) (currentOn (storeShares s g shares) (some s.curthread)) none
    rw [chain]
    exact ⟨core, tight, storeShares_view s g shares ▸ stands.inv.filled⟩
  · show (storeShares s g shares).view.roster.Ok (some s.curthread)
    rw [storeShares_view]
    exact stands.roster

/-- What is stored for a request other than `0`. -/
theorem clampShares_pos (shares : Nat) : 0 < clampShares shares := by
  unfold clampShares minShares maxShares
  split
  · omega
  · split <;> omega

/-- A share is stored and the weights above the group follow. -/
theorem storeShares_walk {shares : Nat} {w : State → List EntId} (stands : Stands C s (some s.curthread))
    (pos : C.positive → 0 < shares) (calm : C.calm → s.view.joined (.group g) → shares = s.view.shares g) :
    Reached C s (updateSharesWalk (storeShares s g shares) (w (storeShares s g shares))) := by
  have first := storeShares_reached stands pos calm
  exact first.trans ((updateSharesWalk_reaches first.2.inv _).1.reached first.2)

theorem setShares_reached {shares : Nat} (stands : Stands C s (some s.curthread)) (inside : g < s.view.ngroups)
    (pos : C.positive → g ≠ 0 → shares ≠ 0)
    (calm : C.calm → s.view.joined (.group g) → shares ≠ 0 ∧ clampShares shares = s.view.shares g) :
    Reached C s (pssSchedGroupSetShares s g shares).2 := by
  unfold pssSchedGroupSetShares
  split
  · exact ⟨.refl s, stands⟩
  · rename_i se owner
    have above : g ≠ 0 := by
      rintro rfl
      have root : (s.grp 0).se = none := stands.inv.core.hier.groupSe 0 inside
      rw [root] at owner
      cases owner
    dsimp only
    by_cases zero : shares = 0
    · have first : Reached C s (storeShares s g nice0Weight) :=
        storeShares_reached stands (fun _ => by decide) fun quiet joined => absurd zero (calm quiet joined).1
      simp only [zero, if_true]
      split
      · exact first
      · refine first.trans (storeShares_walk (w := fun s => walkup s (some se)) first.2
          (fun positive => absurd zero (pos positive above)) fun quiet joined => ?_)
        rw [storeShares_view] at joined
        exact absurd zero (calm quiet joined).1
    · simp only [zero, if_false]
      split
      · exact ⟨.refl s, stands⟩
      · exact storeShares_walk (w := fun s => walkup s (some se)) stands (fun _ => clampShares_pos shares)
          fun quiet joined => (calm quiet joined).2

/-- What `pss_sched_group_set_shares` stores for a request of `0`. -/
theorem setShares_zero (stands : Stands C s (some s.curthread)) (above : g ≠ 0) (inside : g < s.view.ngroups)
    (idle : ¬C.positive) (loud : ¬C.calm) :
    (pssSchedGroupSetShares s g 0).2.view.shares g = 0 ∧
      (pssSchedGroupSetShares s g 0).2.view.ngroups = s.view.ngroups := by
  have owner : (s.grp g).se = seOf g := stands.inv.core.hier.groupSe g inside
  rw [seOf, if_neg above] at owner
  have first : Reached C s (storeShares s g nice0Weight) :=
    storeShares_reached stands (fun _ => by decide) fun quiet => absurd quiet loud
  have second : Reached C (storeShares s g nice0Weight) (storeShares (storeShares s g nice0Weight) g 0) :=
    storeShares_reached first.2 (fun positive => absurd positive idle) fun quiet => absurd quiet loud
  have shares : (storeShares s g nice0Weight).view.shares g = nice0Weight := by
    rw [storeShares_view]
    simp
  have differ : ¬0 = (storeShares s g nice0Weight).view.shares g := by
    rw [shares]
    decide
  have stored : (pssSchedGroupSetShares s g 0).2 =
      updateSharesWalk (storeShares (storeShares s g nice0Weight) g 0)
        (walkup (storeShares (storeShares s g nice0Weight) g 0) (some (.group g))) := by
    unfold pssSchedGroupSetShares
    rw [owner]
    simp only [if_true]
    exact congrArg Prod.snd (if_neg differ)
  have walk := (updateSharesWalk_reaches second.2.inv
    (walkup (storeShares (storeShares s g nice0Weight) g 0) (some (.group g)))).1
  rw [stored]
  have zero : (storeShares (storeShares s g nice0Weight) g 0).view.shares g = 0 := by
    rw [storeShares_view]
    simp
  exact ⟨(congrFun (congrArg View.Frame.shares walk.frame) g).trans zero, congrArg View.Frame.ngroups walk.frame⟩

end shares
end SfqSched
