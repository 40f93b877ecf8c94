import SfqSched.View
import Mathlib.Algebra.BigOperators.Group.Finset.Basic
import Mathlib.Data.Multiset.Count

namespace SfqSched

namespace EntId

/-- The entities `pss_class` accounts for: groups and threads of its class. -/
def pss (cls : Tid → SchedClass) : EntId → Prop
  | .thread t => cls t = .pss
  | .group _ => True

def valid (nthreads ngroups : Nat) : EntId → Prop
  | .thread t => t < nthreads
  | .group g => 0 < g ∧ g < ngroups

/-- How deep below the root an entity can be: its own number, or more for a thread. -/
def rank (ngroups : Nat) : EntId → Nat
  | .thread _ => ngroups
  | .group g => g

@[simp] theorem pss_thread (cls : Tid → SchedClass) (t : Tid) : (thread t).pss cls ↔ cls t = .pss := Iff.rfl
@[simp] theorem pss_group (cls : Tid → SchedClass) (g : Nat) : (group g).pss cls := trivial
@[simp] theorem valid_thread (n m : Nat) (t : Tid) : (thread t).valid n m ↔ t < n := Iff.rfl
@[simp] theorem valid_group (n m : Nat) (g : Nat) : (group g).valid n m ↔ 0 < g ∧ g < m := Iff.rfl

end EntId

/-- The entity of a group in its parent's queue; the root has none. -/
def seOf (g : Nat) : Option EntId := if g = 0 then none else some (.group g)

/-- Only a group has an entity of its own. -/
theorem seOf_some {g : Nat} {e : EntId} (h : seOf g = some e) : 0 < g ∧ e = .group g := by
  unfold seOf at h
  split at h
  · cases h
  · cases h
    exact ⟨by omega, rfl⟩

namespace View

/-- The pointers between entities, queues and groups. -/
structure Hier (v : View) : Prop where
  positive : 0 < v.ngroups
  groupSe : ∀ g, g < v.ngroups → v.groupSe g = seOf g
  groupSfq : ∀ g, g < v.ngroups → v.groupSfq g = g
  owner : ∀ g, g < v.ngroups → v.owner g = g
  threadQ : ∀ t, v.myQ (.thread t) = none
  groupQ : ∀ g, 0 < g → g < v.ngroups → v.myQ (.group g) = some g
  lower : ∀ g, v.sfq (.group g) ≤ g - 1
  inside : ∀ e, v.sfq e < v.ngroups
  link : ∀ e, v.parent e = seOf (v.sfq e)
  tdGroup : ∀ t, v.tdGroup t < v.ngroups

/-- The load and the length of a queue are those of the entities joined to it. -/
def Accounted (v : View) (q : Nat) : Prop :=
  ∃ m : Finset EntId, (∀ e, e ∈ m ↔ v.joined e ∧ e.pss v.cls ∧ v.sfq e = q) ∧
    v.qweight q = ∑ e ∈ m, v.weight e ∧ v.nr q = m.card

/-- What holds between any two steps of any operation; `current` lists the
entities the queues then have as their current ones. -/
structure Core (v : View) (current : List EntId) : Prop where
  hier : v.Hier
  valid : ∀ e, v.joined e → e.valid v.nthreads v.ngroups
  member : ∀ q e, e ∈ v.timeline q → v.joined e ∧ e.pss v.cls ∧ v.sfq e = q
  nodup : ∀ q, (v.timeline q).Nodup
  onSfq : ∀ e, v.onSfq e ↔ e ∈ v.timeline (v.sfq e)
  covered : ∀ e, v.joined e → e.pss v.cls → e ∈ v.timeline (v.sfq e) ∨ v.curr (v.sfq e) = some e
  curr : ∀ q e, v.curr q = some e ↔ e ∈ current ∧ v.sfq e = q
  currPss : ∀ q e, v.curr q = some e → e.pss v.cls
  realtime : ∀ t, v.realtime t → v.onRunq (.thread t)
  onRunq : ∀ e, v.onRunq e → v.joined e ∧ ∃ t, e = .thread t
  accounts : ∀ q, v.Accounted q
  rqWeight : v.rqWeight = v.qweight 0
  threadWeight : ∀ t, t < v.nthreads → 0 < v.weight (.thread t)

/-- A group is joined only while its queue has entities. The group `dangling` may just
have lost its last. -/
def Filled (v : View) (dangling : Option EntId) : Prop :=
  ∀ g, 0 < g → g < v.ngroups → some (.group g) ≠ dangling → v.joined (.group g) → 0 < v.nr g

/-- What positive shares add. The group `dangling` may just have gained its
first entity or lost its last. -/
structure Tight (v : View) (dangling : Option EntId) : Prop where
  shares : ∀ g, 0 < g → g < v.ngroups → 0 < v.shares g
  weight : ∀ e, v.joined e → e.pss v.cls → 0 < v.weight e
  groups : ∀ g, 0 < g → g < v.ngroups → some (.group g) ≠ dangling → (v.joined (.group g) ↔ 0 < v.nr g)
  apart : ∀ q e, v.curr q = some e → v.onSfq e = false

/-- A group that is joined just while it has entities is joined only while it has. -/
theorem Tight.filled {v : View} {d : Option EntId} (tight : v.Tight d) : v.Filled d :=
  fun g pos inside other joined => (tight.groups g pos inside other).mp joined

namespace Hier
variable {v : View} (hier : v.Hier)
include hier

/-- A parent is the group whose queue the entity is in. -/
theorem parent_some {e p : EntId} (h : v.parent e = some p) :
    0 < v.sfq e ∧ v.sfq e < v.ngroups ∧ p = .group (v.sfq e) := by
  rw [hier.link] at h
  obtain ⟨pos, rfl⟩ := seOf_some h
  exact ⟨pos, hier.inside e, rfl⟩

theorem parent_none {e : EntId} : v.parent e = none ↔ v.sfq e = 0 := by
  rw [hier.link, seOf]
  split <;> simp_all

/-- Each step up is to a group that was made earlier. -/
theorem rank_falls (a b : EntId) (h : v.parent a = some b) : b.rank v.ngroups < a.rank v.ngroups := by
  obtain ⟨pos, below, rfl⟩ := hier.parent_some h
  cases a with
  | thread t => exact below
  | group g =>
    have lower := hier.lower g
    simp only [EntId.rank]
    omega

/-- No group is in its own queue. -/
theorem not_own_queue {g : Nat} (pos : 0 < g) : v.sfq (.group g) ≠ g := by
  have lower := hier.lower g
  omega

/-- The entity above a queue is the one of its group. -/
theorem owner_entity {q : Nat} {e : EntId} (inside : q < v.ngroups) :
    v.groupSe (v.owner q) = some e ↔ 0 < q ∧ e = .group q := by
  rw [hier.owner q inside, hier.groupSe q inside]
  refine ⟨seOf_some, ?_⟩
  rintro ⟨pos, rfl⟩
  simp [seOf]
  omega

end Hier

section chains
variable {s : State} (hier : s.view.Hier)
include hier

/-- The way up from an entity ends at the root. -/
theorem Hier.chain {e : EntId} (below : e.rank s.view.ngroups < s.view.ngroups + 1) :
    Chain s.view.parent (some e) (walkup s (some e)) :=
  Chain.of_climb hier.rank_falls _ _ (by rintro a ⟨⟩; exact below) (by omega)

end chains

end View

end SfqSched
