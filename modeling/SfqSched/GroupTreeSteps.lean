import SfqSched.GroupTree

namespace SfqSched
open Function

namespace SysctlPc

/-- Inside `sx_slock`. -/
def shared : SysctlPc → Prop
  | .find call | .walk call _ => call.xlock = false
  | .oldShares .. | .setShares .. | .children .. | .child .. | .sunlock _ => True
  | .childless _ | .threadless _ | .unregister _ | .unlink _ | .delist _ | .freeUnr _ | .free _ => True
  | _ => False

/-- Inside `sx_xlock`. -/
def exclusive : SysctlPc → Prop
  | .find call | .walk call _ => call.xlock = true
  | .findByName .. | .create .. | .move .. | .unlock .. => True
  | _ => False

/-- The groups a handler has a pointer to. -/
def refs : SysctlPc → List Gid
  | .walk _ sg | .findByName sg _ | .create sg _ | .move sg _ => [sg]
  | .oldShares sg _ _ | .setShares sg _ | .children sg _ => [sg]
  | .child sg _ tmp => [sg, tmp]
  | .childless sg | .threadless sg | .unregister sg | .unlink sg | .delist sg | .freeUnr sg | .free sg => [sg]
  | .unlock (some new) _ | .readId new => [new]
  | _ => []

/-- The group that `sched_group_destroy` has found empty and is taking apart. -/
def freeing : SysctlPc → Option Gid
  | .unregister sg | .unlink sg | .delist sg | .freeUnr sg | .free sg => some sg
  | _ => none

/-- Inside the lock in either mode. -/
def inside : SysctlPc → Bool
  | .idle | .lock _ | .readId _ => false
  | _ => true

/-- The group that is still listed although its queue and entity are freed. -/
def leaving : SysctlPc → Option Gid
  | .unlink sg | .delist sg => some sg
  | _ => none

end SysctlPc

namespace GroupTree

/-- While a group is being taken apart, nobody else is inside the lock, and nobody outside has a pointer to it. -/
def Apart (s : GroupTree) : Prop :=
  ∀ c g, (s.pc c).freeing = some g → ∀ c', c' ≠ c → (s.pc c').inside = false ∧ g ∉ (s.pc c').refs

/-- A group with its memory. -/
def Live (s : GroupTree) (g : Gid) : Prop := g ∈ s.allSchedGroups ∧ g ∉ s.quarters

/-- A group found by a handler: still there, or another handler is taking it apart. -/
def Held (s : GroupTree) (c : Nat) (g : Gid) : Prop := s.Live g ∨ ∃ c', c' ≠ c ∧ (s.pc c').freeing = some g

def Empty (s : GroupTree) (g : Gid) : Prop := (s.groups g).children = [] ∧ (s.groups g).threads = []

/-- What the place of a handler says about its groups. -/
def PcFits (s : GroupTree) (c : Nat) : SysctlPc → Prop
  | .unregister g => s.Live g ∧ s.Empty g
  | .unlink g => g ∈ s.allSchedGroups ∧ g ∈ s.quarters ∧ s.Empty g ∧ g ∉ s.returned ∧ g ∉ s.freed
  | .delist g => (g ∈ s.allSchedGroups ∧ g ∈ s.quarters ∧ s.Empty g ∧ g ∉ s.returned ∧ g ∉ s.freed) ∧
    ∀ a ∈ s.allSchedGroups, g ∉ (s.groups a).children
  | .freeUnr g => g ∉ s.allSchedGroups ∧ g < s.ngroups ∧ g ∉ s.returned ∧ g ∉ s.freed
  | .free g => g ∉ s.allSchedGroups ∧ g < s.ngroups ∧ g ∉ s.freed
  | .threadless g => s.Held c g ∧ (s.groups g).children = []
  | .child sg _ tmp => s.Held c sg ∧ s.Held c tmp ∧ (s.groups tmp).parent = some sg
  | pc => ∀ g ∈ pc.refs, s.Held c g

/-- The lock and the places of the handlers agree. -/
structure LockFits (s : GroupTree) : Prop where
  shared : ∀ c, c ∈ s.shared ↔ (s.pc c).shared
  once : s.shared.Nodup
  exclusive : ∀ c, s.exclusive = some c ↔ (s.pc c).exclusive
  apart : s.exclusive ≠ none → s.shared = []

/-- The group is off its parent's list and still on the list of all groups. -/
def Halfway (s : GroupTree) (g : Gid) : Prop := ∃ c, s.pc c = .delist g

/-- The tree: every listed group but the root hangs on a listed parent that is older, if it is not just taken off. -/
structure TreeFits (K : SysctlKernel) (s : GroupTree) : Prop where
  root : 0 ∈ s.allSchedGroups ∧ (s.groups 0).parent = none
  once : s.allSchedGroups.Nodup
  born : ∀ g ∈ s.allSchedGroups, g < s.ngroups
  child : ∀ a ∈ s.allSchedGroups, ∀ b ∈ (s.groups a).children,
    b ∈ s.allSchedGroups ∧ (s.groups b).parent = some a ∧ a < b
  parent : ∀ g ∈ s.allSchedGroups, g ≠ 0 →
    ∃ p, (s.groups g).parent = some p ∧ p ∈ s.allSchedGroups ∧ (g ∈ (s.groups p).children ∨ s.Halfway g)
  siblings : ∀ a ∈ s.allSchedGroups, (s.groups a).children.Nodup
  thread : ∀ t ∈ K.threads, s.groupOf t ∈ s.allSchedGroups ∧ t ∈ (s.groups (s.groupOf t)).threads

/-- What has been freed and returned is gone, or is just going. -/
structure Freed (s : GroupTree) : Prop where
  quarters : ∀ g ∈ s.quarters, g < s.ngroups ∧ (g ∈ s.allSchedGroups → ∃ c, (s.pc c).leaving = some g)
  freed : ∀ g ∈ s.freed, g < s.ngroups ∧ g ∉ s.allSchedGroups
  returned : ∀ g ∈ s.returned, g < s.ngroups ∧ g ∉ s.allSchedGroups
  quartersOnce : s.quarters.Nodup
  freedOnce : s.freed.Nodup
  returnedOnce : s.returned.Nodup

/-- What every step keeps. -/
structure Inv (K : SysctlKernel) (s : GroupTree) : Prop where
  lock : LockFits s
  tree : TreeFits K s
  freed : Freed s
  pc : ∀ c, PcFits s c (s.pc c)
  single : ∀ c c' g, (s.pc c).freeing = some g → (s.pc c').freeing = some g → c = c'

section facts
variable {K : SysctlKernel} {s s' : GroupTree} {c u : Nat} {g : Gid} {pc : SysctlPc}

theorem freeing_refs (h : pc.freeing = some g) : g ∈ pc.refs := by
  cases pc <;> simp_all [SysctlPc.freeing, SysctlPc.refs]

theorem freeing_shared (h : pc.freeing = some g) : pc.shared := by
  cases pc <;> simp_all [SysctlPc.freeing, SysctlPc.shared]

theorem freeing_inside (h : pc.freeing = some g) : pc.inside = true := by
  cases pc <;> simp_all [SysctlPc.freeing, SysctlPc.inside]

/-- Where every step is made alone, a pointer points to a live group. -/
theorem Apart.live (apart : s.Apart) (held : s.Held c g) (ref : g ∈ (s.pc c).refs) : s.Live g := by
  rcases held with live | ⟨c', other, freeing⟩
  · exact live
  · exact absurd ref (apart c' g freeing c (Ne.symm other)).2

theorem leaving_freeing (h : pc.leaving = some g) : pc.freeing = some g := by
  cases pc <;> simp_all [SysctlPc.freeing, SysctlPc.leaving]

/-- A handler that frees is alone in it, with nothing in the group. -/
theorem Inv.empty (h : Inv K s) (member : g ∈ s.quarters) (listed : g ∈ s.allSchedGroups) : s.Empty g := by
  obtain ⟨c, leaving⟩ := (h.freed.quarters g member).2 listed
  have fits := h.pc c
  cases at_c : s.pc c with
  | unlink sg =>
    rw [at_c] at fits leaving
    cases leaving
    exact fits.2.2.1
  | delist sg =>
    rw [at_c] at fits leaving
    cases leaving
    exact fits.1.2.2.1
  | _ => simp [at_c, SysctlPc.leaving] at leaving

theorem Inv.halfway (h : Inv K s) (halfway : s.Halfway g) : g ∈ s.quarters ∧ s.Empty g := by
  obtain ⟨c, at_c⟩ := halfway
  have fits := h.pc c
  rw [at_c] at fits
  exact ⟨fits.1.2.1, fits.1.2.2.1⟩

/-- A listed group with something in it hangs on its parent. -/
theorem Inv.hangs (h : Inv K s) (listed : g ∈ s.allSchedGroups) (other : g ≠ 0) (busy : ¬s.Empty g) :
    ∃ p, (s.groups g).parent = some p ∧ p ∈ s.allSchedGroups ∧ g ∈ (s.groups p).children := by
  obtain ⟨p, parent, inP, inside | halfway⟩ := h.tree.parent g listed other
  · exact ⟨p, parent, inP, inside⟩
  · exact absurd (h.halfway halfway).2 busy

/-- A group with a child or a thread has its queue and entity. -/
theorem Inv.busy (h : Inv K s) (listed : g ∈ s.allSchedGroups) (busy : ¬s.Empty g) : s.Live g :=
  ⟨listed, fun member => busy (h.empty member listed)⟩

theorem Inv.root_busy (h : Inv K s) : ¬s.Empty 0 := by
  rintro ⟨childless, threadless⟩
  obtain ⟨t, member⟩ := List.exists_mem_of_ne_nil _ K.some_thread
  obtain ⟨listed, inGroup⟩ := h.tree.thread t member
  -- the ancestors of the thread's group lead to the root
  have up (n : Nat) : ∀ g ∈ s.allSchedGroups, ¬s.Empty g → g ≤ n → g = 0 := by
    induction n with
    | zero => exact fun g _ _ le => Nat.le_zero.mp le
    | succ n ih =>
      intro g listed busy le
      by_contra other
      obtain ⟨p, at_p, parent, inside⟩ := h.hangs listed other busy
      obtain ⟨_, _, older⟩ := h.tree.child p parent g inside
      have above : ¬s.Empty p := fun empty => List.not_mem_nil (empty.1 ▸ inside)
      have zero := ih p parent above (Nat.le_of_lt_succ (Nat.lt_of_lt_of_le older le))
      rw [zero, childless] at inside
      exact List.not_mem_nil inside
  have busy : ¬s.Empty (s.groupOf t) := fun empty => List.not_mem_nil (empty.2 ▸ inGroup)
  rw [up _ _ listed busy (Nat.le_refl _), threadless] at inGroup
  exact List.not_mem_nil inGroup

/-- The chain of parents of a listed group is listed. -/
theorem Inv.ancestors (h : Inv K s) (live : s.Live g) (fuel : Nat) :
    ∀ a ∈ climb (fun g => (s.groups g).parent) fuel (some g), s.Live a := by
  induction fuel generalizing g with
  | zero => simp [climb]
  | succ fuel ih =>
    intro a member
    simp only [climb, List.mem_cons] at member
    rcases member with rfl | above
    · exact live
    · by_cases root : g = 0
      · rw [root, h.tree.root.2] at above
        cases fuel <;> simp [climb] at above
      · obtain ⟨p, at_p, parent, inside | halfway⟩ := h.tree.parent g live.1 root
        · rw [at_p] at above
          refine ih (h.busy parent fun empty => ?_) a above
          rw [empty.1] at inside
          exact List.not_mem_nil inside
        · exact absurd (h.halfway halfway).1 live.2

end facts

/-- What a step of another handler leaves as it is in a group. -/
structure Same (s s' : GroupTree) (g : Gid) : Prop where
  listed : g ∈ s'.allSchedGroups ↔ g ∈ s.allSchedGroups
  quarters : g ∈ s'.quarters ↔ g ∈ s.quarters
  returned : g ∈ s'.returned ↔ g ∈ s.returned
  freed : g ∈ s'.freed ↔ g ∈ s.freed
  childless : (s.groups g).children = [] → (s'.groups g).children = []
  threadless : (s.groups g).threads = [] → (s'.groups g).threads = []
  parent : (s'.groups g).parent = (s.groups g).parent
  born : g < s.ngroups → g < s'.ngroups

section frame
variable {K : SysctlKernel} {s s' : GroupTree} {c u : Nat} {g : Gid} {pc : SysctlPc}

theorem Same.empty (same : Same s s' g) (empty : s.Empty g) : s'.Empty g :=
  ⟨same.childless empty.1, same.threadless empty.2⟩

theorem PcFits.frame (fits : s.PcFits u pc) (others : ∀ v, v ≠ c → s'.pc v = s.pc v)
    (apart : c ≠ u → ∀ g, (s.pc c).freeing = some g → g ∉ pc.refs)
    (live : ∀ g ∈ pc.refs, s.Live g → s'.Live g) (same : pc.shared → ∀ g ∈ pc.refs, Same s s' g)
    (loose : ∀ g, pc = .delist g → (∀ a ∈ s.allSchedGroups, g ∉ (s.groups a).children) →
      ∀ a ∈ s'.allSchedGroups, g ∉ (s'.groups a).children) : s'.PcFits u pc := by
  have held (g : Gid) (ref : g ∈ pc.refs) (held : s.Held u g) : s'.Held u g := by
    rcases held with still | ⟨c', other, freeing⟩
    · exact .inl (live g ref still)
    · refine .inr ⟨c', other, ?_⟩
      have away : c' ≠ c := by
        rintro rfl
        exact apart other g freeing ref
      rw [others c' away]
      exact freeing
  cases pc with
  | unregister g =>
    have same := same trivial g (by simp [SysctlPc.refs])
    exact ⟨live g (by simp [SysctlPc.refs]) fits.1, same.empty fits.2⟩
  | unlink g =>
    have same := same trivial g (by simp [SysctlPc.refs])
    obtain ⟨listed, quarters, empty, returned, freed⟩ := fits
    exact ⟨same.listed.mpr listed, same.quarters.mpr quarters, same.empty empty, mt same.returned.mp returned,
      mt same.freed.mp freed⟩
  | delist g =>
    have same := same trivial g (by simp [SysctlPc.refs])
    obtain ⟨⟨listed, quarters, empty, returned, freed⟩, off⟩ := fits
    exact ⟨⟨same.listed.mpr listed, same.quarters.mpr quarters, same.empty empty, mt same.returned.mp returned,
      mt same.freed.mp freed⟩, loose g rfl off⟩
  | freeUnr g =>
    have same := same trivial g (by simp [SysctlPc.refs])
    obtain ⟨listed, born, returned, freed⟩ := fits
    exact ⟨mt same.listed.mp listed, same.born born, mt same.returned.mp returned, mt same.freed.mp freed⟩
  | free g =>
    have same := same trivial g (by simp [SysctlPc.refs])
    obtain ⟨listed, born, freed⟩ := fits
    exact ⟨mt same.listed.mp listed, same.born born, mt same.freed.mp freed⟩
  | threadless g =>
    have same := same trivial g (by simp [SysctlPc.refs])
    exact ⟨held g (by simp [SysctlPc.refs]) fits.1, same.childless fits.2⟩
  | child sg id tmp =>
    have same := same trivial tmp (by simp [SysctlPc.refs])
    exact ⟨held sg (by simp [SysctlPc.refs]) fits.1, held tmp (by simp [SysctlPc.refs]) fits.2.1,
      same.parent.trans fits.2.2⟩
  | _ => exact fun g ref => held g ref (fits g ref)

/-- The step of one handler, from what it does to the tree, the lock and its own place. -/
theorem Inv.step (h : Inv K s) (apart : s.Apart) (tree : TreeFits K s') (freed : Freed s') (lock : LockFits s')
    (others : ∀ v, v ≠ c → s'.pc v = s.pc v) (own : s'.PcFits c (s'.pc c))
    (live : ∀ v, v ≠ c → ∀ g ∈ (s.pc v).refs, s.Live g → s'.Live g)
    (same : ∀ v, v ≠ c → (s.pc v).shared → ∀ g ∈ (s.pc v).refs, Same s s' g)
    (single : ∀ g, (s'.pc c).freeing = some g → g ∈ (s.pc c).refs)
    (quiet : (s.pc c).inside ∨ s'.groups = s.groups ∧ s'.allSchedGroups = s.allSchedGroups) : Inv K s' := by
  have alone (v : Nat) (other : v ≠ c) (g : Gid) (mine : (s'.pc c).freeing = some g) :
      (s.pc v).freeing ≠ some g := fun theirs => (apart v g theirs c (Ne.symm other)).2 (single g mine)
  refine ⟨lock, tree, freed, fun v => ?_, fun v w g first second => ?_⟩
  · by_cases here : v = c
    · exact here ▸ own
    · rw [others v here]
      refine (h.pc v).frame others (fun _ g freeing => (apart c g freeing v here).2) (live v here) (same v here)
        fun g at_v off => ?_
      rcases quiet with inside | ⟨groups, all⟩
      · have outside := (apart v g (by rw [at_v]; rfl) c (Ne.symm here)).1
        exact Bool.noConfusion (inside.symm.trans outside)
      · rw [groups, all]
        exact off
  · by_cases hv : v = c <;> by_cases hw : w = c
    · exact hv.trans hw.symm
    · subst hv
      rw [others w hw] at second
      exact absurd second (alone w hw g first)
    · subst hw
      rw [others v hv] at first
      exact absurd first (alone v hv g second)
    · rw [others v hv] at first
      rw [others w hw] at second
      exact h.single v w g first second

/-- A handler that does not take its group off the list leaves those that do where they are. -/
theorem Halfway.keep (others : ∀ v, v ≠ c → s'.pc v = s.pc v) (mine : (s.pc c).leaving = none) (halfway : s.Halfway g) :
    s'.Halfway g := by
  obtain ⟨v, at_v⟩ := halfway
  have other : v ≠ c := by
    rintro rfl
    rw [at_v] at mine
    cases mine
  exact ⟨v, (others v other).trans at_v⟩

@[simp] theorem goto_pc_self (s : GroupTree) (c : Nat) (pc : SysctlPc) : (s.goto c pc).pc c = pc := by simp [goto]

@[simp] theorem emit_pc (s : GroupTree) (c : Nat) (o : SysctlOut) : (s.emit c o).pc = s.pc := rfl

theorem goto_pc_ne (s : GroupTree) (pc : SysctlPc) (other : u ≠ c) : (s.goto c pc).pc u = s.pc u := by
  simp [goto, other]

theorem LockFits.goto {p : SysctlPc} (h : LockFits s) (shared : p.shared ↔ (s.pc c).shared)
    (exclusive : p.exclusive ↔ (s.pc c).exclusive) : LockFits (s.goto c p) := by
  refine ⟨fun u => ?_, h.once, fun u => ?_, h.apart⟩
  · by_cases here : u = c
    · subst here
      rw [goto_pc_self, shared]
      exact h.shared u
    · rw [goto_pc_ne s p here]
      exact h.shared u
  · by_cases here : u = c
    · subst here
      rw [goto_pc_self, exclusive]
      exact h.exclusive u
    · rw [goto_pc_ne s p here]
      exact h.exclusive u

/-- Nothing but the lock, the places and the output differs. -/
structure Frozen (s s' : GroupTree) : Prop where
  groups : s'.groups = s.groups
  allSchedGroups : s'.allSchedGroups = s.allSchedGroups
  ngroups : s'.ngroups = s.ngroups
  quarters : s'.quarters = s.quarters
  freed : s'.freed = s.freed
  returned : s'.returned = s.returned
  groupOf : s'.groupOf = s.groupOf

theorem Frozen.tree (frozen : Frozen s s') (halfway : ∀ g, s.Halfway g → s'.Halfway g) (h : TreeFits K s) :
    TreeFits K s' := by
  obtain ⟨root, once, born, child, parent, siblings, thread⟩ := h
  replace parent := fun g at_g other => (parent g at_g other).imp fun p fits =>
    (⟨fits.1, fits.2.1, fits.2.2.imp_right (halfway g)⟩ : _ ∧ _ ∧ (_ ∨ s'.Halfway g))
  rw [← frozen.allSchedGroups] at root once born child parent siblings thread
  rw [← frozen.groups] at root child parent siblings thread
  rw [← frozen.ngroups] at born
  rw [← frozen.groupOf] at thread
  exact ⟨root, once, born, child, parent, siblings, thread⟩

theorem Frozen.live (frozen : Frozen s s') (live : s.Live g) : s'.Live g := by
  unfold Live at *
  rwa [frozen.allSchedGroups, frozen.quarters]

theorem Frozen.same (frozen : Frozen s s') (g : Gid) : Same s s' g := by
  have groups : s'.groups g = s.groups g := congrFun frozen.groups g
  exact ⟨by rw [frozen.allSchedGroups], by rw [frozen.quarters], by rw [frozen.returned], by rw [frozen.freed],
    by rw [groups]; exact id, by rw [groups]; exact id, by rw [groups], by rw [frozen.ngroups]; exact id⟩

/-- A step that changes nothing but the lock and the place of the handler. -/
theorem Inv.move {p : SysctlPc} (h : Inv K s) (apart : s.Apart) (frozen : Frozen s s') (lock : LockFits s')
    (others : ∀ v, v ≠ c → s'.pc v = s.pc v) (here : s'.pc c = p) (fits : s.PcFits c p)
    (leaves : (s.pc c).leaving = none) (single : ∀ g, p.freeing = some g → g ∈ (s.pc c).refs)
    (stays : ∀ g, p ≠ .delist g) : Inv K s' := by
  refine h.step (c := c) apart (frozen.tree (fun g => Halfway.keep others leaves) h.tree) ?_ lock others ?_
    (fun v _ g _ live => frozen.live live) (fun v _ _ g _ => frozen.same g) (here ▸ single)
    (.inr ⟨frozen.groups, frozen.allSchedGroups⟩)
  · obtain ⟨quarters, freed, returned, once, once', once''⟩ := h.freed
    rw [← frozen.allSchedGroups, ← frozen.ngroups] at quarters freed returned
    rw [← frozen.quarters] at quarters once
    rw [← frozen.freed] at freed once'
    rw [← frozen.returned] at returned once''
    refine ⟨fun g member => ⟨(quarters g member).1, fun listed => ?_⟩, freed, returned, once, once', once''⟩
    obtain ⟨v, at_v⟩ := (quarters g member).2 listed
    have other : v ≠ c := by
      rintro rfl
      cases leaves.symm.trans at_v
    exact ⟨v, (congrArg SysctlPc.leaving (others v other)).trans at_v⟩
  · rw [here]
    exact fits.frame others (fun away => absurd rfl away) (fun g _ live => frozen.live live) (fun _ g _ => frozen.same g)
      fun g same => absurd same (stays g)

theorem Frozen.goto (s : GroupTree) (c : Nat) (pc : SysctlPc) : Frozen s (s.goto c pc) := ⟨rfl, rfl, rfl, rfl, rfl, rfl, rfl⟩

theorem Inv.emit (h : Inv K s) (o : SysctlOut) : Inv K (s.emit c o) := by
  refine ⟨⟨h.lock.shared, h.lock.once, h.lock.exclusive, h.lock.apart⟩, ⟨h.tree.root, h.tree.once, h.tree.born,
    h.tree.child, h.tree.parent, h.tree.siblings, h.tree.thread⟩, ⟨h.freed.quarters, h.freed.freed, h.freed.returned,
    h.freed.quartersOnce, h.freed.freedOnce, h.freed.returnedOnce⟩, fun v => ?_, h.single⟩
  exact (h.pc v).frame (c := v) (fun _ _ => rfl) (fun away => absurd rfl away)
    (fun g _ live => live) (fun _ g _ => ⟨.rfl, .rfl, .rfl, .rfl, id, id, rfl, id⟩) fun _ _ off => off

/-- A step to another place under the same lock. -/
theorem Inv.goto (h : Inv K s) (apart : s.Apart) (shared : pc.shared ↔ (s.pc c).shared)
    (exclusive : pc.exclusive ↔ (s.pc c).exclusive) (fits : s.PcFits c pc) (leaves : (s.pc c).leaving = none)
    (single : ∀ g, pc.freeing = some g → g ∈ (s.pc c).refs) (stays : ∀ g, pc ≠ .delist g) : Inv K (s.goto c pc) :=
  h.move apart (.goto s c pc) (h.lock.goto shared exclusive) (fun _ other => goto_pc_ne s pc other) (goto_pc_self ..)
    fits leaves single stays

theorem Apart.emit (apart : s.Apart) (o : SysctlOut) : (s.emit c o).Apart := apart

end frame

section steps
variable {K : SysctlKernel} {s s' : GroupTree} {c : Nat} {g : Gid}

/-- Every group on the list is there for the handler that finds it. -/
theorem Inv.found_held (h : Inv K s) (at_c : (s.pc c).leaving = none) (listed : g ∈ s.allSchedGroups) : s.Held c g := by
  by_cases member : g ∈ s.quarters
  · obtain ⟨v, at_v⟩ := (h.freed.quarters g member).2 listed
    refine .inr ⟨v, ?_, leaving_freeing at_v⟩
    rintro rfl
    cases at_c.symm.trans at_v
  · exact .inl ⟨listed, member⟩

/-- A place that the search of a call may lead to: inside the lock it took, and with groups that are there. -/
def Leads (s : GroupTree) (c : Nat) (call : SysctlCall) (pc : SysctlPc) : Prop :=
  (pc.shared ↔ call.xlock = false) ∧ (pc.exclusive ↔ call.xlock = true) ∧ pc.freeing = none ∧
  (∀ a, pc ≠ .delist a) ∧ s.PcFits c pc

theorem Inv.leads {call : SysctlCall} {pc : SysctlPc} (h : Inv K s) (apart : s.Apart) (leads : s.Leads c call pc)
    (shared : (s.pc c).shared ↔ call.xlock = false) (exclusive : (s.pc c).exclusive ↔ call.xlock = true)
    (leaves : (s.pc c).leaving = none) : Inv K (s.goto c pc) := by
  obtain ⟨shared', exclusive', plain, stays, fits⟩ := leads
  exact h.goto apart (shared'.trans shared.symm) (exclusive'.trans exclusive.symm) fits leaves (by simp [plain]) stays

/-- `sched_group_find` has found the group. -/
theorem found_leads (K : SysctlKernel) (s : GroupTree) (c : Nat) (call : SysctlCall) (held : s.Held c g) :
    s.Leads c call (call.found K g) := by
  have single (pc : SysctlPc) (refs : pc.refs = [g]) : ∀ a ∈ pc.refs, s.Held c a := by
    rw [refs]
    exact fun a member => List.mem_singleton.mp member ▸ held
  cases call with
  | create id param =>
    cases param with
    | none => exact ⟨by simp [SysctlCall.found, SysctlPc.shared, SysctlCall.xlock],
        by simp [SysctlCall.found, SysctlPc.exclusive, SysctlCall.xlock], rfl, fun a same => SysctlPc.noConfusion same,
        single (.create g none) rfl⟩
    | some param =>
      by_cases blank : param.name = ""
      · have same : (SysctlCall.create id (some param)).found K g = .create g (some param) := if_pos blank
        rw [same]
        exact ⟨by simp [SysctlPc.shared, SysctlCall.xlock], by simp [SysctlPc.exclusive, SysctlCall.xlock], rfl,
          fun a same => SysctlPc.noConfusion same, single (.create g (some param)) rfl⟩
      · have same : (SysctlCall.create id (some param)).found K g = .findByName g param := if_neg blank
        rw [same]
        exact ⟨by simp [SysctlPc.shared, SysctlCall.xlock], by simp [SysctlPc.exclusive, SysctlCall.xlock], rfl,
          fun a same => SysctlPc.noConfusion same, single (.findByName g param) rfl⟩
  | move pid id =>
    exact ⟨by simp [SysctlCall.found, SysctlPc.shared, SysctlCall.xlock],
      by simp [SysctlCall.found, SysctlPc.exclusive, SysctlCall.xlock], rfl, fun a same => SysctlPc.noConfusion same,
      single (.move g _) rfl⟩
  | setShares id old shares =>
    exact ⟨by simp [SysctlCall.found, SysctlPc.shared, SysctlCall.xlock],
      by simp [SysctlCall.found, SysctlPc.exclusive, SysctlCall.xlock], rfl, fun a same => SysctlPc.noConfusion same,
      single (.oldShares g old shares) rfl⟩
  | getSubGroups id =>
    exact ⟨by simp [SysctlCall.found, SysctlPc.shared, SysctlCall.xlock],
      by simp [SysctlCall.found, SysctlPc.exclusive, SysctlCall.xlock], rfl, fun a same => SysctlPc.noConfusion same,
      single (.children g id) rfl⟩
  | destroy id =>
    exact ⟨by simp [SysctlCall.found, SysctlPc.shared, SysctlCall.xlock],
      by simp [SysctlCall.found, SysctlPc.exclusive, SysctlCall.xlock], rfl, fun a same => SysctlPc.noConfusion same,
      single (.childless g) rfl⟩

theorem missed_leads (s : GroupTree) (c : Nat) (call : SysctlCall) : s.Leads c call call.missed := by
  unfold SysctlCall.missed Leads
  cases call.xlock
  · exact ⟨iff_of_true trivial rfl, iff_of_false id Bool.false_ne_true, rfl, fun a same => SysctlPc.noConfusion same,
      fun g ref => absurd ref List.not_mem_nil⟩
  · exact ⟨iff_of_false id Bool.false_ne_true.symm, iff_of_true trivial rfl, rfl, fun a same => SysctlPc.noConfusion same,
      fun g ref => absurd ref List.not_mem_nil⟩

/-- The walk of `sched_group_find` comes to a group of the list, or to its end. -/
theorem walk_leads (s : GroupTree) (c : Nat) (call : SysctlCall) (o : Option Gid) (held : ∀ g, o = some g → s.Held c g) :
    s.Leads c call ((o.map (SysctlPc.walk call)).getD call.missed) := by
  cases o with
  | none => exact missed_leads s c call
  | some g =>
    exact ⟨.rfl, .rfl, rfl, fun a same => SysctlPc.noConfusion same,
      fun a ref => List.mem_singleton.mp ref ▸ held g rfl⟩

theorem LockFits.slock (h : LockFits s) (free : s.exclusive = none) (at_c : ¬(s.pc c).shared) {pc : SysctlPc}
    (shared : pc.shared) (plain : ¬pc.exclusive) : LockFits ({ s with shared := c :: s.shared }.goto c pc) := by
  refine ⟨fun u => ?_, ?_, fun u => ?_, fun held => absurd free held⟩
  · by_cases here : u = c
    · subst here
      rw [goto_pc_self]
      exact ⟨fun _ => shared, fun _ => List.mem_cons_self ..⟩
    · rw [goto_pc_ne _ pc here]
      refine Iff.trans ?_ (h.shared u)
      simp [GroupTree.goto, here]
  · exact List.nodup_cons.mpr ⟨mt (h.shared c).mp at_c, h.once⟩
  · by_cases here : u = c
    · subst here
      rw [goto_pc_self]
      simp [GroupTree.goto, free, plain]
    · rw [goto_pc_ne _ pc here]
      exact h.exclusive u

theorem LockFits.xlock (h : LockFits s) (none_in : s.shared = []) (free : s.exclusive = none) {pc : SysctlPc}
    (plain : ¬pc.shared) (exclusive : pc.exclusive) : LockFits ({ s with exclusive := some c }.goto c pc) := by
  refine ⟨fun u => ?_, h.once, fun u => ?_, fun _ => none_in⟩
  · by_cases here : u = c
    · subst here
      rw [goto_pc_self]
      simp [GroupTree.goto, none_in, plain]
    · rw [goto_pc_ne _ pc here]
      exact h.shared u
  · by_cases here : u = c
    · subst here
      rw [goto_pc_self]
      simp [GroupTree.goto, exclusive]
    · rw [goto_pc_ne _ pc here]
      refine Iff.trans ?_ (h.exclusive u)
      simp [GroupTree.goto, free, Ne.symm here]

theorem LockFits.sunlock (h : LockFits s) (at_c : ¬(s.pc c).exclusive) {p : SysctlPc} (out : ¬p.shared)
    (plain : ¬p.exclusive) : LockFits ({ s with shared := s.shared.erase c }.goto c p) := by
  refine ⟨fun u => ?_, h.once.erase c, fun u => ?_, fun held => ?_⟩
  · by_cases here : u = c
    · subst here
      rw [goto_pc_self]
      simp [GroupTree.goto, out, h.once.mem_erase_iff]
    · rw [goto_pc_ne _ p here]
      refine Iff.trans ?_ (h.shared u)
      simp [GroupTree.goto, here, List.mem_erase_of_ne]
  · by_cases here : u = c
    · subst here
      rw [goto_pc_self]
      exact iff_of_false (mt (h.exclusive u).mp at_c) plain
    · rw [goto_pc_ne _ p here]
      exact h.exclusive u
  · have empty := h.apart held
    simp [GroupTree.goto, empty]

theorem LockFits.unlock (h : LockFits s) (at_c : (s.pc c).exclusive) {p : SysctlPc} (out : ¬p.shared)
    (plain : ¬p.exclusive) : LockFits ({ s with exclusive := none }.goto c p) := by
  have held := (h.exclusive c).mpr at_c
  have empty := h.apart (by simp [held])
  refine ⟨fun u => ?_, h.once, fun u => ?_, fun held => absurd rfl held⟩
  · by_cases here : u = c
    · subst here
      rw [goto_pc_self]
      simp [GroupTree.goto, empty, out]
    · rw [goto_pc_ne _ p here]
      exact h.shared u
  · by_cases here : u = c
    · subst here
      rw [goto_pc_self]
      simp [GroupTree.goto, plain]
    · rw [goto_pc_ne _ p here]
      refine iff_of_false (by simp [GroupTree.goto]) fun theirs => here ?_
      have both := (h.exclusive u).mpr theirs
      rw [held] at both
      exact (Option.some.inj both).symm

end steps
end GroupTree
end SfqSched
