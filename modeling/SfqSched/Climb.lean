import Mathlib.Data.List.Basic
import Mathlib.Tactic.Common

namespace SfqSched

/-- Follow parent pointers, `fuel` times at most. -/
def climb {α : Type} (parent : α → Option α) : Nat → Option α → List α
  | 0, _ => []
  | _ + 1, none => []
  | fuel + 1, some a => a :: climb parent fuel (parent a)

/-- The complete chain of parents from a node to a root. -/
inductive Chain {α : Type} (parent : α → Option α) : Option α → List α → Prop
  | root : Chain parent none []
  | link {a l} : Chain parent (parent a) l → Chain parent (some a) (a :: l)

namespace Chain
variable {α : Type} {parent parent' : α → Option α}

theorem unique {o : Option α} {l l' : List α} (h : Chain parent o l) (h' : Chain parent o l') : l = l' := by
  induction h generalizing l' with
  | root => cases h'; rfl
  | link _ ih =>
    cases h' with
    | link rest => rw [ih rest]

/-- Only the pointers of the nodes on the chain matter. -/
theorem frame {o : Option α} {l : List α} (h : Chain parent o l) (same : ∀ a ∈ l, parent' a = parent a) :
    Chain parent' o l := by
  induction h with
  | root => exact .root
  | @link a l _ ih =>
    refine .link ?_
    rw [same a (List.mem_cons_self ..)]
    exact ih fun b member => same b (List.mem_cons_of_mem _ member)

/-- A property that passes from a node to its parent passes along the chain. -/
theorem all {o : Option α} {l : List α} (h : Chain parent o l) {p : α → Prop}
    (first : ∀ a, o = some a → p a) (up : ∀ a b, p a → parent a = some b → p b) : ∀ a ∈ l, p a := by
  induction h with
  | root => simp
  | @link a l _ ih =>
    intro b member
    rcases List.mem_cons.mp member with rfl | member
    · exact first b rfl
    · exact ih (fun c at_c => up a c (first a rfl) at_c) b member

/-- Along a chain of falling ranks everything lies below its first node. -/
theorem rank_lt {a : α} {l : List α} {rank : α → Nat} (h : Chain parent (parent a) l)
    (falls : ∀ a b, parent a = some b → rank b < rank a) : ∀ b ∈ l, rank b < rank a :=
  h.all (fun b at_b => falls a b at_b) fun b c below at_c => Nat.lt_trans (falls b c at_c) below

theorem nodup {o : Option α} {l : List α} {rank : α → Nat} (h : Chain parent o l)
    (falls : ∀ a b, parent a = some b → rank b < rank a) : l.Nodup := by
  induction h with
  | root => exact List.nodup_nil
  | @link a l rest ih =>
    refine List.nodup_cons.mpr ⟨fun member => ?_, ih⟩
    exact Nat.lt_irrefl _ (rest.rank_lt falls a member)

/-- Where ranks fall, as much fuel as the first rank is enough. -/
theorem of_climb {rank : α → Nat} (falls : ∀ a b, parent a = some b → rank b < rank a) :
    ∀ (fuel : Nat) (o : Option α), (∀ a, o = some a → rank a < fuel) → 0 < fuel →
      Chain parent o (climb parent fuel o)
  | 0, _, _, enough => absurd enough (Nat.lt_irrefl 0)
  | fuel + 1, none, _, _ => .root
  | fuel + 1, some a, below, _ => by
    refine .link ?_
    cases at_parent : parent a with
    | none => cases fuel <;> exact .root
    | some b =>
      have lower := falls a b at_parent
      have upper := below a rfl
      exact of_climb falls fuel (some b) (by rintro c ⟨⟩; omega) (by omega)

end Chain

end SfqSched
