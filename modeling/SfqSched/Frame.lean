import Mathlib.Order.Lattice
import Mathlib.Order.BooleanAlgebra.Defs

namespace SfqSched

/-- A way to cover up parts of a state: covering more forgets what covering less has left. -/
structure Cover (ι σ : Type*) where
  hide : (ι → Bool) → σ → σ
  hide_hide : ∀ {w w' : ι → Bool}, w ≤ w' → ∀ s, hide w' (hide w s) = hide w' s

namespace Cover
variable {ι σ α β : Type*} {C : Cover ι σ} {w w' : ι → Bool} {s s' s'' : σ}

/-- The two states differ at most in the parts in `w`. -/
def Within (C : Cover ι σ) (w : ι → Bool) (s s' : σ) : Prop := C.hide w s' = C.hide w s

namespace Within

theorem refl (s : σ) : C.Within w s s := rfl

theorem of_eq (same : s' = s) : C.Within w s s' := congrArg (C.hide w) same

theorem trans (first : C.Within w s s') (second : C.Within w s' s'') : C.Within w s s'' := Eq.trans second first

/-- A function that writes little writes no more than one that writes more. -/
theorem mono (h : C.Within w s s') (le : w ≤ w') : C.Within w' s s' := by
  unfold Within at *
  rw [← C.hide_hide le s', h, C.hide_hide le]

/-- What does not look at the parts in `w` reads the same. -/
theorem read (h : C.Within w s s') (f : σ → α) (blind : ∀ s, f (C.hide w s) = f s) : f s' = f s := by
  rw [← blind s', h, blind]

theorem ite {p : Prop} [Decidable p] {a b : σ} (yes : C.Within w s a) (no : C.Within w s b) :
    C.Within w s (if p then a else b) := by
  split
  · exact yes
  · exact no

/-- A step that is made or not. -/
theorem optional {p : Prop} [Decidable p] {f : σ → Option σ} (step : ∀ {a}, f s = some a → C.Within w s a)
    (run : (if p then f s else some s) = some s') : C.Within w s s' := by
  split at run
  · exact step run
  · exact .of_eq (Option.some.inj run).symm

theorem foldl {f : σ → β → σ} (step : ∀ s b, C.Within w s (f s b)) (l : List β) (s : σ) :
    C.Within w s (l.foldl f s) := by
  induction l generalizing s with
  | nil => exact .refl s
  | cons b rest ih => exact (step s b).trans (ih (f s b))

theorem foldlM {f : σ → β → Option σ} (step : ∀ {s b a}, f s b = some a → C.Within w s a) {l : List β}
    (run : l.foldlM f s = some s') : C.Within w s s' := by
  induction l generalizing s with
  | nil => exact .of_eq (Option.some.inj run).symm
  | cons b rest ih =>
    obtain ⟨a, first, later⟩ := Option.bind_eq_some_iff.mp ((List.foldlM_cons ..).symm.trans run)
    exact (step first).trans (ih later)

end Within
end Cover
end SfqSched
