import Mathlib.Data.List.Basic

namespace SfqSched.Simulation
variable {σ τ ω α : Type} {step : σ → ω → Option (α × σ)} {step' : τ → ω → Option (α × τ)}

/-- What a machine answers to operations, one after the other, and its state then. -/
def answers (step : σ → ω → Option (α × σ)) : σ → List ω → Option (List α × σ)
  | x, [] => some ([], x)
  | x, op :: ops =>
    (step x op).bind fun done => (answers step done.2 ops).map fun rest => (done.1 :: rest.1, rest.2)

/-- Every step of the first machine is one of the second with the same answer. -/
def Simulates (step : σ → ω → Option (α × σ)) (step' : τ → ω → Option (α × τ)) (R : σ → τ → Prop) :
    Prop :=
  ∀ x t op a x', R x t → step x op = some (a, x') → ∃ t', step' t op = some (a, t') ∧ R x' t'

theorem Simulates.answers {R : σ → τ → Prop} (simulates : Simulates step step' R) {x x' : σ} {t : τ} {ops : List ω}
    {as : List α} (related : R x t) (ran : answers step x ops = some (as, x')) :
    ∃ t', answers step' t ops = some (as, t') ∧ R x' t' := by
  induction ops generalizing x t as with
  | nil =>
    cases ran
    exact ⟨t, rfl, related⟩
  | cons op ops ih =>
    obtain ⟨⟨a, y⟩, first, rest⟩ := Option.bind_eq_some_iff.mp ran
    obtain ⟨⟨later, z⟩, runs, same⟩ := Option.map_eq_some_iff.mp rest
    cases same
    obtain ⟨t₁, first', related₁⟩ := simulates x t op a y related first
    obtain ⟨t', runs', related'⟩ := ih related₁ runs
    refine ⟨t', ?_, related'⟩
    rw [Simulation.answers, first', Option.bind_some, runs']
    rfl

end SfqSched.Simulation
