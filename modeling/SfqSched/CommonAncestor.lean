import SfqSched.Membership

namespace SfqSched
open State Function

namespace Chain
variable {α : Type} {parent : α → Option α}

/-- The end of a chain that is not empty is a chain. -/
theorem drop {o : Option α} {l : List α} (h : Chain parent o l) :
    ∀ n, n < l.length → ∃ a, Chain parent (some a) (l.drop n) := by
  induction h with
  | root => exact fun n below => absurd below (Nat.not_lt_zero n)
  | @link a l rest ih =>
    intro n below
    cases n with
    | zero => exact ⟨a, .link rest⟩
    | succ n => exact ih n (Nat.lt_of_succ_lt_succ below)

/-- What has `x` for its parent stands just before `x`. -/
theorem before {rank : α → Nat} (falls : ∀ a b, parent a = some b → rank b < rank a) {x u : α}
    {rest : List α} : ∀ {pre : List α} {o : Option α}, Chain parent o (pre ++ x :: rest) → u ∈ pre ++ x :: rest →
      parent u = some x → pre.getLast? = some u
  | [], _, .link links, member, up => by
    have lower := falls u x up
    rcases List.mem_cons.mp member with rfl | above
    · exact absurd lower (Nat.lt_irrefl _)
    · exact absurd (Nat.lt_trans (links.rank_lt falls u above) lower) (Nat.lt_irrefl _)
  | p :: pre, _, .link links, member, up => by
    rcases List.mem_cons.mp member with rfl | above
    · rw [up] at links
      cases pre with
      | nil => rfl
      | cons c pre =>
        cases links with
        | link links =>
          have far := links.rank_lt falls x (List.mem_append_right pre (List.mem_cons_self ..))
          exact absurd far (Nat.lt_irrefl _)
    · have last := before falls links above up
      rw [List.getLast?_cons, last]
      rfl

end Chain

section ancestor
variable {s : State}

/-- Two chains of one length meet at the root's queue if not before. -/
theorem climbTogether_some (hier : s.view.Hier) {o p : Option EntId} {as bs : List EntId}
    (linkA : Chain s.view.parent o as) (linkB : Chain s.view.parent p bs) (even : as.length = bs.length)
    (some_level : as ≠ []) : ∃ x y, climbTogether s as bs = some (x, y) := by
  induction linkA generalizing p bs with
  | root => exact absurd rfl some_level
  | @link a as restA ih =>
    cases linkB with
    | root => cases even
    | @link b bs restB =>
      unfold climbTogether
      split
      · exact ⟨a, b, rfl⟩
      · rename_i apart
        have lengths : as.length = bs.length := Nat.succ.inj even
        refine ih restB lengths fun top => apart ?_
        -- both are entities of the root's queue
        subst top
        obtain rfl := List.length_eq_zero_iff.mp lengths.symm
        have noneA : s.view.parent a = none := by
          cases up : s.view.parent a with
          | none => rfl
          | some c => rw [up] at restA; cases restA
        have noneB : s.view.parent b = none := by
          cases up : s.view.parent b with
          | none => rfl
          | some c => rw [up] at restB; cases restB
        exact (hier.parent_none.mp noneA).trans (hier.parent_none.mp noneB).symm

/-- Where the two chains meet, and that they did not meet one level below. -/
theorem climbTogether_split {as bs : List EntId} {x y : EntId} (h : climbTogether s as bs = some (x, y)) :
    (s.ent x).sfq = (s.ent y).sfq ∧
    ∃ preA restA preB restB, as = preA ++ x :: restA ∧ bs = preB ++ y :: restB ∧ preA.length = preB.length ∧
      ∀ u v, preA.getLast? = some u → preB.getLast? = some v → (s.ent u).sfq ≠ (s.ent v).sfq := by
  fun_induction climbTogether s as bs with
  | case1 a as b bs same =>
    cases h
    exact ⟨same, [], as, [], bs, rfl, rfl, rfl, fun u v never => by cases never⟩
  | case2 a as b bs apart ih =>
    obtain ⟨meet, preA, restA, preB, restB, splitA, splitB, even, below⟩ := ih h
    refine ⟨meet, a :: preA, restA, b :: preB, restB, by rw [splitA]; rfl, by rw [splitB]; rfl, by simp [even], ?_⟩
    intro u v lastA lastB
    cases preA with
    | nil =>
      obtain rfl := List.length_eq_zero_iff.mp even.symm
      cases lastA
      cases lastB
      exact apart
    | cons c preA =>
      cases preB with
      | nil => cases even
      | cons d preB =>
        rw [List.getLast?_cons_cons] at lastA lastB
        exact below u v lastA lastB
  | case3 => cases h

/-- `find_common_ancestor` reaches no `NULL` and stops at the deepest level the chains share. -/
theorem findCommonAncestor_deepest (hier : s.view.Hier) {a b : EntId} {chainA chainB : List EntId}
    (linkA : Chain s.view.parent (some a) chainA) (linkB : Chain s.view.parent (some b) chainB)
    (isA : chainA = walkup s (some a)) (isB : chainB = walkup s (some b)) :
    ∃ x y, findCommonAncestor s a b = some (x, y) ∧ x ∈ chainA ∧ y ∈ chainB ∧ (s.ent x).sfq = (s.ent y).sfq ∧
      ∀ u ∈ chainA, ∀ v ∈ chainB, (s.ent u).parent = some x → (s.ent v).parent = some y →
        (s.ent u).sfq ≠ (s.ent v).sfq := by
  have posA : 0 < chainA.length := by
    cases linkA
    exact Nat.succ_pos _
  have posB : 0 < chainB.length := by
    cases linkB
    exact Nat.succ_pos _
  obtain ⟨a', cutA⟩ := linkA.drop (chainA.length - chainB.length) (by omega)
  obtain ⟨b', cutB⟩ := linkB.drop (chainB.length - chainA.length) (by omega)
  have even : (chainA.drop (chainA.length - chainB.length)).length =
      (chainB.drop (chainB.length - chainA.length)).length := by
    rw [List.length_drop, List.length_drop]
    omega
  obtain ⟨x, y, found⟩ := climbTogether_some hier cutA cutB even fun top => by
    rw [top] at cutA
    cases cutA
  obtain ⟨meet, preA, restA, preB, restB, splitA, splitB, level, below⟩ := climbTogether_split found
  have wholeA := (List.take_append_drop (chainA.length - chainB.length) chainA).symm
  have wholeB := (List.take_append_drop (chainB.length - chainA.length) chainB).symm
  rw [splitA, ← List.append_assoc] at wholeA
  rw [splitB, ← List.append_assoc] at wholeB
  refine ⟨x, y, ?_, ?_, ?_, meet, fun u inA v inB upA upB => ?_⟩
  · rw [isA, isB] at found
    exact found
  · rw [wholeA]
    simp
  · rw [wholeB]
    simp
  · rw [wholeA] at linkA inA
    rw [wholeB] at linkB inB
    have lastA := Chain.before hier.rank_falls linkA inA upA
    have lastB := Chain.before hier.rank_falls linkB inB upB
    cases preA with
    | nil =>
      -- the shorter chain starts here, so it has no level below
      obtain rfl := List.length_eq_zero_iff.mp level.symm
      rw [List.append_nil] at lastA lastB
      have oneA : 0 < (chainA.take (chainA.length - chainB.length)).length :=
        List.length_pos_of_mem (List.mem_of_getLast? lastA)
      have oneB : 0 < (chainB.take (chainB.length - chainA.length)).length :=
        List.length_pos_of_mem (List.mem_of_getLast? lastB)
      rw [List.length_take] at oneA oneB
      omega
    | cons c preA =>
      cases preB with
      | nil => cases level
      | cons d preB =>
        rw [List.getLast?_append_cons] at lastA lastB
        exact below u v lastA lastB

end ancestor

/-- In whatever tree of groups, the chains of two threads meet, and at the deepest queue both reach. -/
theorem common_ancestor (k : Kernel) (tun : Tunables) (ops : List Op) (s : State) (ran : run k tun ops = some s)
    (a b : Tid) :
    ∃ x y, findCommonAncestor s (.thread a) (.thread b) = some (x, y) ∧ x ∈ walkup s (some (.thread a)) ∧
      y ∈ walkup s (some (.thread b)) ∧ (s.ent x).sfq = (s.ent y).sfq ∧
      ∀ u ∈ walkup s (some (.thread a)), ∀ v ∈ walkup s (some (.thread b)),
        (s.ent u).parent = some x → (s.ent v).parent = some y → (s.ent u).sfq ≠ (s.ent v).sfq := by
  have hier := (run_free ran).settled.stands.inv.core.hier
  exact findCommonAncestor_deepest hier (hier.chain (Nat.lt_succ_self _)) (hier.chain (Nat.lt_succ_self _)) rfl rfl

theorem common_ancestor_grouped :
    ∃ s x y, run plainKernel {} groupedWaiter = some s ∧ findCommonAncestor s (.thread 0) (.thread 2) = some (x, y) ∧
      (s.ent x).sfq = (s.ent y).sfq ∧ (s.ent (.thread 2)).sfq = 1 := by
  have result : (run plainKernel {} groupedWaiter).map (fun s => (s.ent (.thread 2)).sfq) = some 1 := by decide +kernel
  obtain ⟨s, ran, sfq⟩ := Option.map_eq_some_iff.mp result
  obtain ⟨x, y, found, _, _, same, _⟩ := common_ancestor _ _ _ s ran 0 2
  exact ⟨s, x, y, ran, found, same, sfq⟩

end SfqSched
