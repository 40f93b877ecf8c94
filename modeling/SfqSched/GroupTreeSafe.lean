import SfqSched.GroupTreeSteps

namespace SfqSched
open Function
namespace GroupTree

section tree
variable {K : SysctlKernel} {s s' : GroupTree} {c : Nat} {g sg : Gid}

/-- The tree is made of the children, the parents and the threads. -/
theorem TreeFits.congr (h : TreeFits K s) (listed : s'.allSchedGroups = s.allSchedGroups) (born : s'.ngroups = s.ngroups)
    (groupOf : s'.groupOf = s.groupOf) (halfway : ∀ g, s.Halfway g → s'.Halfway g)
    (groups : ∀ g, (s'.groups g).children = (s.groups g).children ∧ (s'.groups g).parent = (s.groups g).parent ∧
      (s'.groups g).threads = (s.groups g).threads) : TreeFits K s' where
  root := by
    rw [listed, (groups 0).2.1]
    exact h.root
  once := listed ▸ h.once
  born := by
    rw [listed, born]
    exact h.born
  child := fun a at_a b at_b => by
    rw [listed] at at_a ⊢
    rw [(groups a).1] at at_b
    rw [(groups b).2.1]
    exact h.child a at_a b at_b
  parent := fun g at_g other => by
    rw [listed] at at_g
    obtain ⟨p, parent, at_p, inside⟩ := h.parent g at_g other
    refine ⟨p, (groups g).2.1.trans parent, listed ▸ at_p, ?_⟩
    rw [(groups p).1]
    exact inside.imp_right (halfway g)
  siblings := fun a at_a => by
    rw [(groups a).1]
    exact h.siblings a (listed ▸ at_a)
  thread := fun t member => by
    rw [listed, groupOf, (groups _).2.2]
    exact h.thread t member

/-- The tree does not depend on where a handler is that takes no group off the list. -/
theorem TreeFits.goto {p : SysctlPc} (h : TreeFits K s) (leaves : (s.pc c).leaving = none) : TreeFits K (s.goto c p) :=
  (Frozen.goto s c p).tree (fun _ => Halfway.keep (fun _ other => goto_pc_ne s p other) leaves) h

/-- The groups after `sched_group_create`. -/
theorem schedGroupCreate_groups {parent : Gid} {o : Option SchedGroupCreateParam} (older : parent < s.ngroups) :
    let s' := s.schedGroupCreate K parent o
    ((s'.groups s.ngroups).children = [] ∧ (s'.groups s.ngroups).threads = [] ∧
      (s'.groups s.ngroups).parent = some parent) ∧
    ∀ g, g ≠ s.ngroups → (s'.groups g).parent = (s.groups g).parent ∧ (s'.groups g).threads = (s.groups g).threads ∧
      (s'.groups g).children = if g = parent then (s.groups g).children ++ [s.ngroups] else (s.groups g).children := by
  have other : s.ngroups ≠ parent := Nat.ne_of_gt older
  refine ⟨by simp [schedGroupCreate, modGroup, other], fun g old => ?_⟩
  by_cases here : g = parent
  · subst here
    simp [schedGroupCreate, modGroup, old]
  · simp [schedGroupCreate, modGroup, here, old]

theorem TreeFits.create {parent : Gid} {o : Option SchedGroupCreateParam} (h : TreeFits K s)
    (listed : parent ∈ s.allSchedGroups) : TreeFits K (s.schedGroupCreate K parent o) := by
  obtain ⟨new, old⟩ := schedGroupCreate_groups (K := K) (o := o) (h.born parent listed)
  have all : (s.schedGroupCreate K parent o).allSchedGroups = s.allSchedGroups ++ [s.ngroups] := rfl
  have fresh : s.ngroups ∉ s.allSchedGroups := fun member => Nat.lt_irrefl _ (h.born _ member)
  have apart (g : Gid) (member : g ∈ s.allSchedGroups) : g ≠ s.ngroups := fun same => fresh (same ▸ member)
  have cases_all {g : Gid} (member : g ∈ s.allSchedGroups ++ [s.ngroups]) : g ∈ s.allSchedGroups ∨ g = s.ngroups := by
    simpa using member
  refine ⟨?_, ?_, ?_, ?_, ?_, ?_, ?_⟩
  · rw [all, (old 0 (apart 0 h.root.1)).1]
    exact ⟨List.mem_append_left _ h.root.1, h.root.2⟩
  · rw [all]
    exact List.nodup_append.mpr ⟨h.once, by simp, fun a inAll b last => by
      obtain rfl := List.mem_singleton.mp last
      exact apart a inAll⟩
  · rw [all]
    intro g member
    rcases cases_all member with inAll | rfl
    · exact Nat.lt_succ_of_lt (h.born g inAll)
    · exact Nat.lt_succ_self _
  · rw [all]
    intro a at_a b at_b
    rcases cases_all at_a with inAll | rfl
    · rw [(old a (apart a inAll)).2.2] at at_b
      have oldChild (inside : b ∈ (s.groups a).children) : b ∈ s.allSchedGroups ++ [s.ngroups] ∧
          ((s.schedGroupCreate K parent o).groups b).parent = some a ∧ a < b := by
        obtain ⟨at_b, parent_b, older⟩ := h.child a inAll b inside
        exact ⟨List.mem_append_left _ at_b, (old b (apart b at_b)).1.trans parent_b, older⟩
      split at at_b
      next here =>
        rcases List.mem_append.mp at_b with inside | last
        · exact oldChild inside
        · obtain rfl := List.mem_singleton.mp last
          subst here
          exact ⟨by simp, new.2.2, h.born a inAll⟩
      next => exact oldChild at_b
    · rw [new.1] at at_b
      exact absurd at_b (List.not_mem_nil)
  · rw [all]
    intro g at_g other
    rcases cases_all at_g with inAll | rfl
    · obtain ⟨p, at_p, inP, inside⟩ := h.parent g inAll other
      refine ⟨p, (old g (apart g inAll)).1.trans at_p, List.mem_append_left _ inP, ?_⟩
      rw [(old p (apart p inP)).2.2]
      split
      · exact inside.imp_left (List.mem_append_left _)
      · exact inside
    · refine ⟨parent, new.2.2, List.mem_append_left _ listed, ?_⟩
      rw [(old parent (apart parent listed)).2.2, if_pos rfl]
      exact .inl (List.mem_append_right _ (List.mem_singleton_self _))
  · rw [all]
    intro a at_a
    rcases cases_all at_a with inAll | rfl
    · rw [(old a (apart a inAll)).2.2]
      split
      · refine List.nodup_append.mpr ⟨h.siblings a inAll, by simp, fun b inside x last => ?_⟩
        obtain rfl := List.mem_singleton.mp last
        exact apart b (h.child a inAll b inside).1
      · exact h.siblings a inAll
    · rw [new.1]
      exact List.nodup_nil
  · rw [all]
    intro t member
    obtain ⟨inAll, inside⟩ := h.thread t member
    have same : (s.schedGroupCreate K parent o).groupOf = s.groupOf := rfl
    rw [same, (old _ (apart _ inAll)).2.1]
    exact ⟨List.mem_append_left _ inAll, inside⟩

theorem modGroup_groups (s : GroupTree) (a g : Gid) (f : TreeGroup → TreeGroup) :
    (s.modGroup a f).groups g = if g = a then f (s.groups a) else s.groups g := by
  simp [modGroup, update_apply]

theorem moveThread_tree (s : GroupTree) (td : Tid) (sg g : Gid) :
    ((s.moveThread td sg).groups g).children = (s.groups g).children ∧
    ((s.moveThread td sg).groups g).parent = (s.groups g).parent := by
  by_cases same : s.groupOf td = sg
  · simp [moveThread, same]
  · by_cases here : g = sg <;> by_cases there : g = s.groupOf td <;>
      simp_all [moveThread, modGroup_groups]

theorem moveThread_thread (s : GroupTree) (td t : Tid) (sg : Gid)
    (inside : t ∈ (s.groups (s.groupOf t)).threads) :
    ((s.moveThread td sg).groupOf t = s.groupOf t ∨ (s.moveThread td sg).groupOf t = sg) ∧
      t ∈ ((s.moveThread td sg).groups ((s.moveThread td sg).groupOf t)).threads := by
  by_cases same : s.groupOf td = sg
  · simp [moveThread, same, inside]
  · by_cases moved : t = td
    · subst moved
      simp [moveThread, same, modGroup_groups]
    · have kept : (s.moveThread td sg).groupOf t = s.groupOf t := by simp [moveThread, same, moved, modGroup]
      rw [kept]
      refine ⟨.inl rfl, ?_⟩
      by_cases here : s.groupOf t = sg
      · rw [here] at inside
        simp [moveThread, same, modGroup_groups, here, Ne.symm same, inside]
      · by_cases there : s.groupOf t = s.groupOf td
        · rw [there] at inside
          simp [moveThread, same, modGroup_groups, there, List.mem_erase_of_ne moved, inside]
        · simp [moveThread, same, modGroup_groups, here, there, inside]

theorem TreeFits.moveThread {x : Tid} (h : TreeFits K s) (listed : sg ∈ s.allSchedGroups) :
    TreeFits K (s.moveThread x sg) := by
  have all : (s.moveThread x sg).allSchedGroups = s.allSchedGroups := by
    by_cases same : s.groupOf x = sg <;> simp [GroupTree.moveThread, same, modGroup]
  have born : (s.moveThread x sg).ngroups = s.ngroups := by
    by_cases same : s.groupOf x = sg <;> simp [GroupTree.moveThread, same, modGroup]
  have pcs : (s.moveThread x sg).pc = s.pc := by
    by_cases same : s.groupOf x = sg <;> simp [GroupTree.moveThread, same, modGroup]
  refine ⟨?_, all ▸ h.once, by rw [all, born]; exact h.born, ?_, ?_, ?_, ?_⟩
  · rw [all, (moveThread_tree s x sg 0).2]
    exact h.root
  · intro a at_a b at_b
    rw [all] at at_a ⊢
    rw [(moveThread_tree s x sg a).1] at at_b
    rw [(moveThread_tree s x sg b).2]
    exact h.child a at_a b at_b
  · intro g at_g other
    rw [all] at at_g ⊢
    rw [(moveThread_tree s x sg g).2]
    obtain ⟨p, parent, at_p, inside⟩ := h.parent g at_g other
    refine ⟨p, parent, at_p, ?_⟩
    rw [(moveThread_tree s x sg p).1]
    exact inside.imp_right fun halfway => halfway.imp fun v at_v => (congrFun pcs v).trans at_v
  · intro a at_a
    rw [(moveThread_tree s x sg a).1]
    exact h.siblings a (all ▸ at_a)
  · intro t member
    obtain ⟨inAll, inside⟩ := h.thread t member
    obtain ⟨which, there⟩ := moveThread_thread s x t sg inside
    refine ⟨?_, there⟩
    rw [all]
    rcases which with same | same
    · rw [same]
      exact inAll
    · rw [same]
      exact listed

/-- `TAILQ_REMOVE` from the parent's list. -/
theorem TreeFits.unlink {p : Gid} (h : TreeFits K s) (listed : g ∈ s.allSchedGroups)
    (parent : (s.groups g).parent = some p) {t : GroupTree}
    (groups : t.groups = (s.modGroup p fun a => { a with children := a.children.erase g }).groups)
    (all : t.allSchedGroups = s.allSchedGroups) (born : t.ngroups = s.ngroups) (groupOf : t.groupOf = s.groupOf)
    (halfway : ∀ a, a = g ∨ s.Halfway a → t.Halfway a) :
    TreeFits K t ∧ ∀ a ∈ t.allSchedGroups, g ∉ (t.groups a).children := by
  have parents (a : Gid) : (t.groups a).parent = (s.groups a).parent := by
    rw [groups, modGroup_groups]
    split <;> simp_all
  have threads (a : Gid) : (t.groups a).threads = (s.groups a).threads := by
    rw [groups, modGroup_groups]
    split <;> simp_all
  have children (a : Gid) : (t.groups a).children =
      if a = p then (s.groups a).children.erase g else (s.groups a).children := by
    rw [groups, modGroup_groups]
    split <;> simp_all
  -- the children that are left are the old ones but the group itself
  have left {a b : Gid} (at_a : a ∈ s.allSchedGroups) :
      b ∈ (t.groups a).children ↔ b ≠ g ∧ b ∈ (s.groups a).children := by
    rw [children]
    split
    next here => exact (h.siblings a at_a).mem_erase_iff
    next there =>
      refine ⟨fun inside => ⟨?_, inside⟩, fun both => both.2⟩
      rintro rfl
      have of_a := (h.child a at_a b inside).2.1
      rw [parent] at of_a
      exact there (Option.some.inj of_a).symm
  refine ⟨⟨?_, all ▸ h.once, by rw [all, born]; exact h.born, ?_, ?_, ?_, ?_⟩, ?_⟩
  · rw [all, parents]
    exact h.root
  · rw [all]
    intro a at_a b at_b
    obtain ⟨_, inside⟩ := (left at_a).mp at_b
    rw [parents]
    exact h.child a at_a b inside
  · rw [all]
    intro a at_a notRoot
    obtain ⟨q, at_q, inQ, inside⟩ := h.parent a at_a notRoot
    refine ⟨q, (parents a).trans at_q, inQ, ?_⟩
    by_cases here : a = g
    · exact .inr (halfway a (.inl here))
    · exact inside.imp (fun inside => (left inQ).mpr ⟨here, inside⟩) fun old => halfway a (.inr old)
  · rw [all]
    intro a at_a
    rw [children]
    split
    · exact (h.siblings a at_a).erase g
    · exact h.siblings a at_a
  · rw [all, groupOf]
    intro x member
    rw [threads]
    exact h.thread x member
  · rw [all]
    exact fun a at_a inside => ((left at_a).mp inside).1 rfl

/-- `TAILQ_REMOVE` from `all_sched_groups`, of a group that is on no other list. -/
theorem TreeFits.delist (h : TreeFits K s) (other : g ≠ 0) (empty : s.Empty g)
    (off : ∀ a ∈ s.allSchedGroups, g ∉ (s.groups a).children) {t : GroupTree} (groups : t.groups = s.groups)
    (all : t.allSchedGroups = s.allSchedGroups.erase g) (born : t.ngroups = s.ngroups) (groupOf : t.groupOf = s.groupOf)
    (hang : ∀ a ∈ s.allSchedGroups, a ≠ g → ¬s.Halfway a) : TreeFits K t := by
  have mem {a : Gid} : a ∈ s.allSchedGroups.erase g ↔ a ≠ g ∧ a ∈ s.allSchedGroups := h.once.mem_erase_iff
  refine ⟨?_, ?_, ?_, ?_, ?_, ?_, ?_⟩
  · rw [all, groups, mem]
    exact ⟨⟨Ne.symm other, h.root.1⟩, h.root.2⟩
  · rw [all]
    exact h.once.erase g
  · rw [all, born]
    exact fun a member => h.born a (mem.mp member).2
  · rw [all, groups]
    intro a at_a b at_b
    obtain ⟨inAll, of_a, older⟩ := h.child a (mem.mp at_a).2 b at_b
    refine ⟨mem.mpr ⟨?_, inAll⟩, of_a, older⟩
    rintro rfl
    exact off a (mem.mp at_a).2 at_b
  · rw [all, groups]
    intro a at_a notRoot
    obtain ⟨ne, inAll⟩ := mem.mp at_a
    obtain ⟨q, at_q, inQ, inside | halfway⟩ := h.parent a inAll notRoot
    · refine ⟨q, at_q, mem.mpr ⟨?_, inQ⟩, .inl inside⟩
      rintro rfl
      rw [empty.1] at inside
      exact List.not_mem_nil inside
    · exact absurd halfway (hang a inAll ne)
  · rw [all, groups]
    exact fun a at_a => h.siblings a (mem.mp at_a).2
  · rw [all, groupOf, groups]
    intro t member
    obtain ⟨inAll, inside⟩ := h.thread t member
    refine ⟨mem.mpr ⟨?_, inAll⟩, inside⟩
    intro same
    rw [same, empty.2] at inside
    exact List.not_mem_nil inside

end tree
section steps
variable {K : SysctlKernel} {s s' : GroupTree} {c : Nat} {g sg : Gid}

/-- While one handler holds the lock alone, nobody is inside `sx_slock`. -/
theorem LockFits.alone (h : LockFits s) (held : (s.pc c).exclusive) (v : Nat) : ¬(s.pc v).shared := by
  intro shared
  have holder := (h.exclusive c).mpr held
  have empty := h.apart (by simp [holder])
  have member := (h.shared v).mpr shared
  rw [empty] at member
  exact List.not_mem_nil member

/-- A step that frees and returns nothing, and lists no freed group. -/
theorem Freed.keep {t : GroupTree} (h : Freed s) (quarters : t.quarters = s.quarters) (freed : t.freed = s.freed)
    (returned : t.returned = s.returned) (born : s.ngroups ≤ t.ngroups)
    (listed : ∀ g, g < s.ngroups → g ∈ t.allSchedGroups → g ∈ s.allSchedGroups)
    (others : ∀ v, v ≠ c → t.pc v = s.pc v)
    (leaves : ∀ g ∈ t.allSchedGroups, (s.pc c).leaving = some g → (t.pc c).leaving = some g) : Freed t where
  quarters := fun g member => by
    rw [quarters] at member
    obtain ⟨old, going⟩ := h.quarters g member
    refine ⟨Nat.lt_of_lt_of_le old born, fun still => ?_⟩
    obtain ⟨v, at_v⟩ := going (listed g old still)
    by_cases here : v = c
    · exact ⟨v, here ▸ leaves g still (here ▸ at_v)⟩
    · exact ⟨v, (congrArg SysctlPc.leaving (others v here)).trans at_v⟩
  freed := fun g member => by
    obtain ⟨old, gone⟩ := h.freed g (freed ▸ member)
    exact ⟨Nat.lt_of_lt_of_le old born, fun still => gone (listed g old still)⟩
  returned := fun g member => by
    obtain ⟨old, gone⟩ := h.returned g (returned ▸ member)
    exact ⟨Nat.lt_of_lt_of_le old born, fun still => gone (listed g old still)⟩
  quartersOnce := quarters ▸ h.quartersOnce
  freedOnce := freed ▸ h.freedOnce
  returnedOnce := returned ▸ h.returnedOnce

theorem Inv.create_step {parent : Gid} {param : Option SchedGroupCreateParam} (h : Inv K s) (apart : s.Apart)
    (at_c : s.pc c = .create parent param) :
    Inv K ((s.schedGroupCreate K parent param).goto c (.unlock (some s.ngroups) 0)) := by
  have fits := h.pc c
  rw [at_c] at fits
  have live : s.Live parent := apart.live (fits parent (by simp [SysctlPc.refs])) (by simp [at_c, SysctlPc.refs])
  have alone := h.lock.alone (c := c) (by simp [at_c, SysctlPc.exclusive])
  have tree := (h.tree.create (o := param) live.1).goto (c := c) (p := .unlock (some s.ngroups) 0)
    (show (s.pc c).leaving = none by rw [at_c]; rfl)
  have fresh : s.ngroups ∉ s.quarters := fun member => Nat.lt_irrefl _ (h.freed.quarters _ member).1
  have others (v : Nat) (other : v ≠ c) :
      ((s.schedGroupCreate K parent param).goto c (.unlock (some s.ngroups) 0)).pc v = s.pc v := goto_pc_ne _ _ other
  have lock : LockFits ((s.schedGroupCreate K parent param).goto c (.unlock (some s.ngroups) 0)) :=
    (show LockFits (s.schedGroupCreate K parent param) from
      ⟨h.lock.shared, h.lock.once, h.lock.exclusive, h.lock.apart⟩).goto (c := c)
      (iff_of_false id (alone c)) (iff_of_true trivial (show (s.pc c).exclusive by simp [at_c, SysctlPc.exclusive]))
  refine h.step (c := c) apart tree
    (h.freed.keep (c := c) rfl rfl rfl (Nat.le_succ _) (fun g old member => ?_) others
      (fun g _ => by simp [at_c, SysctlPc.leaving]))
    lock others ?_ (fun v _ g _ still => ⟨List.mem_append_left _ still.1, still.2⟩)
    (fun v _ shared => absurd shared (alone v)) (by simp [SysctlPc.freeing]) (.inl (by simp [at_c, SysctlPc.inside]))
  · rcases List.mem_append.mp (show g ∈ s.allSchedGroups ++ [s.ngroups] from member) with inAll | last
    · exact inAll
    · exact absurd (List.mem_singleton.mp last) (Nat.ne_of_lt old)
  · rw [goto_pc_self]
    intro g ref
    obtain rfl := List.mem_singleton.mp (show g ∈ [s.ngroups] from ref)
    exact .inl ⟨List.mem_append_right _ (List.mem_singleton_self _), fresh⟩

theorem Inv.move_step {td : Tid} {tds : List Tid} (h : Inv K s) (apart : s.Apart) (at_c : s.pc c = .move sg (td :: tds)) :
    Inv K ((s.moveThread td sg).goto c (.move sg tds)) := by
  have fits := h.pc c
  rw [at_c] at fits
  have live : s.Live sg := apart.live (fits sg (by simp [SysctlPc.refs])) (by simp [at_c, SysctlPc.refs])
  have alone := h.lock.alone (c := c) (by simp [at_c, SysctlPc.exclusive])
  have kept : (s.moveThread td sg).allSchedGroups = s.allSchedGroups ∧ (s.moveThread td sg).ngroups = s.ngroups ∧
      (s.moveThread td sg).quarters = s.quarters ∧ (s.moveThread td sg).freed = s.freed ∧
      (s.moveThread td sg).returned = s.returned ∧ (s.moveThread td sg).pc = s.pc ∧
      (s.moveThread td sg).shared = s.shared ∧ (s.moveThread td sg).exclusive = s.exclusive := by
    by_cases same : s.groupOf td = sg <;> simp [moveThread, same, modGroup]
  obtain ⟨all, born, quarters, freed, returned, pcs, shared, exclusive⟩ := kept
  have tree := (h.tree.moveThread (x := td) live.1).goto (c := c) (p := .move sg tds)
    (by rw [pcs, at_c]; rfl)
  have others (v : Nat) (other : v ≠ c) : ((s.moveThread td sg).goto c (.move sg tds)).pc v = s.pc v :=
    (goto_pc_ne _ _ other).trans (congrFun pcs v)
  have lives (g : Gid) (still : s.Live g) : ((s.moveThread td sg).goto c (.move sg tds)).Live g :=
    ⟨all ▸ still.1, quarters ▸ still.2⟩
  have lock : LockFits (s.moveThread td sg) := by
    obtain ⟨shared', once, exclusive', apart'⟩ := h.lock
    exact ⟨by rw [shared, pcs]; exact shared', by rw [shared]; exact once, by rw [exclusive, pcs]; exact exclusive',
      by rw [exclusive, shared]; exact apart'⟩
  refine h.step (c := c) apart tree
    (h.freed.keep (c := c) quarters freed returned (Nat.le_of_eq born.symm) (fun g _ member => all ▸ member) others
      (fun g _ => by simp [at_c, SysctlPc.leaving]))
    (lock.goto (by simp [pcs, at_c, SysctlPc.shared]) (by simp [pcs, at_c, SysctlPc.exclusive]))
    others ?_ (fun v _ g _ => lives g) (fun v _ shared => absurd shared (alone v)) (by simp [SysctlPc.freeing])
    (.inl (by simp [at_c, SysctlPc.inside]))
  rw [goto_pc_self]
  intro g ref
  obtain rfl := List.mem_singleton.mp (show g ∈ [sg] from ref)
  exact .inl (lives _ live)

theorem Inv.setShares_step {shares : Nat} (h : Inv K s) (apart : s.Apart) (at_c : s.pc c = .setShares sg shares) :
    Inv K ((s.storeShares sg shares).goto c (.sunlock 0)) := by
  have groups (g : Gid) : ((s.storeShares sg shares).groups g).children = (s.groups g).children ∧
      ((s.storeShares sg shares).groups g).parent = (s.groups g).parent ∧
      ((s.storeShares sg shares).groups g).threads = (s.groups g).threads := by
    by_cases root : (s.groups sg).parent = none
    · simp [storeShares, root]
    · by_cases here : g = sg <;> simp [storeShares, root, modGroup_groups, here]
  have kept : (s.storeShares sg shares).allSchedGroups = s.allSchedGroups ∧
      (s.storeShares sg shares).ngroups = s.ngroups ∧ (s.storeShares sg shares).quarters = s.quarters ∧
      (s.storeShares sg shares).freed = s.freed ∧ (s.storeShares sg shares).returned = s.returned ∧
      (s.storeShares sg shares).pc = s.pc ∧ (s.storeShares sg shares).shared = s.shared ∧
      (s.storeShares sg shares).exclusive = s.exclusive ∧ (s.storeShares sg shares).groupOf = s.groupOf := by
    by_cases root : (s.groups sg).parent = none <;> simp [storeShares, root, modGroup]
  obtain ⟨all, born, quarters, freed, returned, pcs, shared, exclusive, groupOf⟩ := kept
  have tree : TreeFits K ((s.storeShares sg shares).goto c (.sunlock 0)) :=
    (h.tree.congr all born groupOf (fun g halfway => halfway.imp fun v at_v => (congrFun pcs v).trans at_v) groups).goto
      (by rw [pcs, at_c]; rfl)
  have others (v : Nat) (other : v ≠ c) : ((s.storeShares sg shares).goto c (.sunlock 0)).pc v = s.pc v :=
    (goto_pc_ne _ _ other).trans (congrFun pcs v)
  have lock : LockFits (s.storeShares sg shares) := by
    obtain ⟨shared', once, exclusive', apart'⟩ := h.lock
    exact ⟨by rw [shared, pcs]; exact shared', by rw [shared]; exact once, by rw [exclusive, pcs]; exact exclusive',
      by rw [exclusive, shared]; exact apart'⟩
  refine h.step (c := c) apart tree
    (h.freed.keep (c := c) quarters freed returned (Nat.le_of_eq born.symm) (fun g _ member => all ▸ member) others
      (fun g _ => by simp [at_c, SysctlPc.leaving]))
    (lock.goto (by simp [pcs, at_c, SysctlPc.shared]) (by simp [pcs, at_c, SysctlPc.exclusive]))
    others ?_ (fun v _ g _ still => ⟨all ▸ still.1, quarters ▸ still.2⟩) (fun v _ _ g _ => ?_) (by simp [SysctlPc.freeing])
    (.inl (by simp [at_c, SysctlPc.inside]))
  · rw [goto_pc_self]
    exact fun g ref => absurd ref (List.not_mem_nil)
  · refine ⟨iff_of_eq (congrArg (g ∈ ·) all), iff_of_eq (congrArg (g ∈ ·) quarters), iff_of_eq (congrArg (g ∈ ·) returned),
      iff_of_eq (congrArg (g ∈ ·) freed), fun empty => (groups g).1.trans empty, fun empty => (groups g).2.2.trans empty,
      (groups g).2.1, fun old => Nat.lt_of_lt_of_eq old born.symm⟩

/-- A step inside `sched_group_destroy` that leaves the tree, for what it adds to the three records. -/
theorem Inv.destroy_step {p : SysctlPc} (h : Inv K s) (apart : s.Apart) (mine : (s.pc c).freeing = some g)
    (next : p.shared ∧ ¬p.exclusive) (own : s'.PcFits c p)
    (still : p.freeing = some g ∨ p.freeing = none)
    (quarters : ∀ a, a ≠ g → (a ∈ s'.quarters ↔ a ∈ s.quarters)) (freed : ∀ a, a ≠ g → (a ∈ s'.freed ↔ a ∈ s.freed))
    (returned : ∀ a, a ≠ g → (a ∈ s'.returned ↔ a ∈ s.returned)) (frees : Freed s') (tree : TreeFits K s')
    (all : ∀ a, a ≠ g → (a ∈ s'.allSchedGroups ↔ a ∈ s.allSchedGroups)) (born : s'.ngroups = s.ngroups)
    (groups : ∀ a, ((s.groups a).children = [] → (s'.groups a).children = []) ∧
      (s'.groups a).threads = (s.groups a).threads ∧ (s'.groups a).parent = (s.groups a).parent)
    (locks : s'.shared = s.shared ∧ s'.exclusive = s.exclusive) (pcs : s'.pc = update s.pc c p) : Inv K s' := by
  have here : s'.pc c = p := by simp [pcs]
  have others (v : Nat) (other : v ≠ c) : s'.pc v = s.pc v := by simp [pcs, other]
  have away (v : Nat) (other : v ≠ c) (a : Gid) (ref : a ∈ (s.pc v).refs) : a ≠ g := by
    rintro rfl
    exact (apart c a mine v other).2 ref
  have inside : (s.pc c).shared := freeing_shared mine
  have notExclusive : ¬(s.pc c).exclusive := fun held => h.lock.alone held c inside
  have lock : LockFits s' := by
    have moved := h.lock.goto (c := c) (p := p) (iff_of_true next.1 inside) (iff_of_false next.2 notExclusive)
    obtain ⟨shared, once, exclusive, apart⟩ := moved
    refine ⟨?_, ?_, ?_, ?_⟩
    · rw [locks.1, pcs]
      exact shared
    · rw [locks.1]
      exact once
    · rw [locks.2, pcs]
      exact exclusive
    · rw [locks.1, locks.2]
      exact apart
  refine h.step (c := c) apart tree frees lock others (here ▸ own) (fun v other a ref live => ?_)
    (fun v other _ a ref => ?_) (fun a freeing => ?_) (.inl (freeing_inside mine))
  · have ne := away v other a ref
    exact ⟨(all a ne).mpr live.1, mt (quarters a ne).mp live.2⟩
  · have ne := away v other a ref
    exact ⟨all a ne, quarters a ne, returned a ne, freed a ne, (groups a).1,
      fun empty => (groups a).2.1.trans empty, (groups a).2.2, fun old => Nat.lt_of_lt_of_eq old born.symm⟩
  · rw [here] at freeing
    rcases still with same | gone
    · rw [same] at freeing
      exact Option.some.inj freeing ▸ freeing_refs mine
    · rw [gone] at freeing
      exact absurd freeing (by simp)

/-- The steps of `sched_group_destroy` that only count what is freed. -/
theorem TreeFits.counted {t : GroupTree} {p : SysctlPc} (h : TreeFits K s) (leaves : (s.pc c).leaving = none)
    (groups : t.groups = s.groups) (all : t.allSchedGroups = s.allSchedGroups) (born : t.ngroups = s.ngroups)
    (groupOf : t.groupOf = s.groupOf) (pcs : t.pc = update s.pc c p) : TreeFits K t :=
  (h.goto (p := p) leaves).congr all born groupOf
    (fun _ halfway => halfway.imp fun v at_v => (congrFun pcs v).trans at_v)
    fun g => ⟨congrArg TreeGroup.children (congrFun groups g), congrArg TreeGroup.parent (congrFun groups g),
      congrArg TreeGroup.threads (congrFun groups g)⟩

theorem Inv.unregister_step (h : Inv K s) (apart : s.Apart) (at_c : s.pc c = .unregister g) :
    Inv K ({ s with quarters := g :: s.quarters }.goto c (.unlink g)) := by
  have fits := h.pc c
  rw [at_c] at fits
  obtain ⟨⟨listed, unfreed⟩, empty⟩ := fits
  refine h.destroy_step (p := .unlink g) apart (by rw [at_c]; rfl) ⟨trivial, id⟩ ?_ (.inl rfl) (fun a ne => by simp [GroupTree.goto, ne])
    (fun _ _ => .rfl) (fun _ _ => .rfl) ?_ (h.tree.counted (c := c) (by rw [at_c]; rfl) rfl rfl rfl rfl rfl)
    (fun _ _ => .rfl) rfl (fun _ => ⟨id, rfl, rfl⟩) ⟨rfl, rfl⟩ rfl
  · exact ⟨listed, List.mem_cons_self .., empty, fun member => (h.freed.returned g member).2 listed,
      fun member => (h.freed.freed g member).2 listed⟩
  · refine ⟨fun a member => ?_, h.freed.freed, h.freed.returned, List.nodup_cons.mpr ⟨unfreed, h.freed.quartersOnce⟩,
      h.freed.freedOnce, h.freed.returnedOnce⟩
    rcases List.mem_cons.mp (show a ∈ g :: s.quarters from member) with rfl | old
    · exact ⟨h.tree.born a listed, fun _ => ⟨c, congrArg SysctlPc.leaving (goto_pc_self ..)⟩⟩
    · refine ⟨(h.freed.quarters a old).1, fun still => ?_⟩
      obtain ⟨v, at_v⟩ := (h.freed.quarters a old).2 still
      have other : v ≠ c := by
        rintro rfl
        rw [at_c] at at_v
        cases at_v
      exact ⟨v, (congrArg SysctlPc.leaving (goto_pc_ne _ _ other)).trans at_v⟩

theorem Inv.unlink_step (h : Inv K s) (apart : s.Apart) (at_c : s.pc c = .unlink g)
    (step : sysctlStep K s c = some s') : Inv K s' := by
  have fits := h.pc c
  rw [at_c] at fits
  obtain ⟨listed, inQuarters, empty, unreturned, unfreed⟩ := fits
  simp only [sysctlStep, at_c] at step
  obtain ⟨p, parent, rfl⟩ := Option.map_eq_some_iff.mp step
  have notHere (v : Nat) (a : Gid) (at_v : s.pc v = .delist a) : v ≠ c := by
    rintro rfl
    exact SysctlPc.noConfusion (at_c.symm.trans at_v)
  obtain ⟨tree, off⟩ := h.tree.unlink listed parent
    (t := (({ s with stale := update s.stale g (tailqNext (s.groups p).children g) } : GroupTree).modGroup p
      fun a => { a with children := a.children.erase g }).goto c (.delist g)) rfl rfl rfl rfl (by
        rintro a (rfl | ⟨v, at_v⟩)
        · exact ⟨c, goto_pc_self ..⟩
        · exact ⟨v, (goto_pc_ne _ _ (notHere v a at_v)).trans at_v⟩)
  refine h.destroy_step (p := .delist g) apart (by rw [at_c]; rfl) ⟨trivial, id⟩ ⟨⟨listed, inQuarters, ?_, unreturned, unfreed⟩, off⟩
    (.inl rfl) (fun _ _ => .rfl) (fun _ _ => .rfl) (fun _ _ => .rfl) ?_ tree (fun _ _ => .rfl) rfl (fun a => ?_)
    ⟨rfl, rfl⟩ rfl
  · by_cases here : g = p
    · exact ⟨by simp [GroupTree.goto, modGroup, here, here ▸ empty.1], by simp [GroupTree.goto, modGroup, here, here ▸ empty.2]⟩
    · exact ⟨by simp [GroupTree.goto, modGroup, here, empty.1], by simp [GroupTree.goto, modGroup, here, empty.2]⟩
  · refine h.freed.keep (c := c) rfl rfl rfl (Nat.le_refl _) (fun a _ still => still)
      (fun v ne => goto_pc_ne _ _ ne) fun a _ leaving => ?_
    rw [at_c] at leaving
    exact (congrArg SysctlPc.leaving (goto_pc_self ..)).trans leaving
  · by_cases here : a = p
    · subst here
      refine ⟨fun none => ?_, by simp [GroupTree.goto, modGroup], by simp [GroupTree.goto, modGroup]⟩
      simp [GroupTree.goto, modGroup, none]
    · simp [GroupTree.goto, modGroup, here]

theorem Inv.delist_step (h : Inv K s) (apart : s.Apart) (at_c : s.pc c = .delist g) :
    Inv K ({ s with staleLink := update s.staleLink g (tailqNext s.allSchedGroups g), allSchedGroups := s.allSchedGroups.erase g }.goto
      c (.freeUnr g)) := by
  have fits := h.pc c
  rw [at_c] at fits
  obtain ⟨⟨listed, inQuarters, empty, unreturned, unfreed⟩, off⟩ := fits
  have other : g ≠ 0 := by
    rintro rfl
    exact h.root_busy empty
  have mem {a : Gid} : a ∈ s.allSchedGroups.erase g ↔ a ≠ g ∧ a ∈ s.allSchedGroups := h.tree.once.mem_erase_iff
  -- no second group is halfway off: its handler would be alone inside the lock
  have hang (a : Gid) (ne : a ≠ g) : ¬s.Halfway a := by
    rintro ⟨v, at_v⟩
    have away : c ≠ v := by
      rintro rfl
      exact ne (SysctlPc.delist.inj (at_v.symm.trans at_c))
    have outside := (apart v a (by rw [at_v]; rfl) c away).1
    simp [at_c, SysctlPc.inside] at outside
  refine h.destroy_step (p := .freeUnr g) apart (by rw [at_c]; rfl) ⟨trivial, id⟩ ?_ (.inl rfl) (fun _ _ => .rfl)
    (fun _ _ => .rfl) (fun _ _ => .rfl) ?_ (h.tree.delist other empty off rfl rfl rfl rfl fun a _ => hang a)
    (fun a ne => mem.trans (and_iff_right ne)) rfl (fun a => ⟨id, rfl, rfl⟩) ⟨rfl, rfl⟩ rfl
  · exact ⟨fun still => (mem.mp still).1 rfl, h.tree.born g listed, unreturned, unfreed⟩
  · refine h.freed.keep (c := c) rfl rfl rfl (Nat.le_refl _) (fun a _ still => (mem.mp still).2)
      (fun v ne => goto_pc_ne _ _ ne) fun a still leaving => ?_
    rw [at_c] at leaving
    exact absurd (Option.some.inj leaving).symm (mem.mp still).1

theorem Inv.freeUnr_step (h : Inv K s) (apart : s.Apart) (at_c : s.pc c = .freeUnr g) :
    Inv K ({ s with unrhdr := s.unrhdr.erase (s.groups g).id, returned := g :: s.returned }.goto c (.free g)) := by
  have fits := h.pc c
  rw [at_c] at fits
  obtain ⟨gone, born, unreturned, unfreed⟩ := fits
  refine h.destroy_step (p := .free g) apart (by rw [at_c]; rfl) ⟨trivial, id⟩ ⟨gone, born, unfreed⟩ (.inl rfl) (fun _ _ => .rfl)
    (fun _ _ => .rfl) (fun a ne => by simp [GroupTree.goto, ne]) ?_
    (h.tree.counted (c := c) (by rw [at_c]; rfl) rfl rfl rfl rfl rfl)
    (fun _ _ => .rfl) rfl (fun _ => ⟨id, rfl, rfl⟩) ⟨rfl, rfl⟩ rfl
  have kept := h.freed.keep (c := c) (t := s.goto c (.free g)) rfl rfl rfl (Nat.le_refl _) (fun _ _ still => still)
    (fun v ne => goto_pc_ne _ _ ne) fun a _ leaving => by
      rw [at_c] at leaving
      cases leaving
  refine ⟨kept.quarters, kept.freed, fun a member => ?_, kept.quartersOnce, kept.freedOnce,
    List.nodup_cons.mpr ⟨unreturned, kept.returnedOnce⟩⟩
  rcases List.mem_cons.mp (show a ∈ g :: s.returned from member) with rfl | old
  · exact ⟨born, gone⟩
  · exact kept.returned a old

theorem Inv.free_step (h : Inv K s) (apart : s.Apart) (at_c : s.pc c = .free g) :
    Inv K ({ s with freed := g :: s.freed }.goto c (.sunlock 0)) := by
  have fits := h.pc c
  rw [at_c] at fits
  obtain ⟨gone, born, unfreed⟩ := fits
  refine h.destroy_step (p := .sunlock 0) apart (by rw [at_c]; rfl) ⟨trivial, id⟩ (fun a ref => absurd ref (List.not_mem_nil)) (.inr rfl)
    (fun _ _ => .rfl) (fun a ne => by simp [GroupTree.goto, ne]) (fun _ _ => .rfl) ?_
    (h.tree.counted (c := c) (by rw [at_c]; rfl) rfl rfl rfl rfl rfl)
    (fun _ _ => .rfl) rfl (fun _ => ⟨id, rfl, rfl⟩) ⟨rfl, rfl⟩ rfl
  have kept := h.freed.keep (c := c) (t := s.goto c (.sunlock 0)) rfl rfl rfl (Nat.le_refl _) (fun _ _ still => still)
    (fun v ne => goto_pc_ne _ _ ne) fun a _ leaving => by
      rw [at_c] at leaving
      cases leaving
  refine ⟨kept.quarters, fun a member => ?_, kept.returned, kept.quartersOnce,
    List.nodup_cons.mpr ⟨unfreed, kept.freedOnce⟩, kept.returnedOnce⟩
  rcases List.mem_cons.mp (show a ∈ g :: s.freed from member) with rfl | old
  · exact ⟨born, gone⟩
  · exact kept.freed a old

theorem Inv.lock_step {call : SysctlCall} (h : Inv K s) (apart : s.Apart) (at_c : s.pc c = .lock call)
    (step : sysctlStep K s c = some s') : Inv K s' := by
  have outside : ¬(s.pc c).shared := by simp [at_c, SysctlPc.shared]
  simp only [sysctlStep, at_c] at step
  split at step
  next xlock =>
    obtain ⟨⟨none_in, free⟩, done⟩ := Option.ite_none_right_eq_some.mp step
    obtain rfl := Option.some.inj done
    refine h.move (c := c) (p := .find call) apart ⟨rfl, rfl, rfl, rfl, rfl, rfl, rfl⟩
      (h.lock.xlock none_in free (by simp [SysctlPc.shared, xlock]) xlock) (fun _ other => goto_pc_ne _ _ other)
      (goto_pc_self ..) (fun g ref => absurd ref (List.not_mem_nil)) (by rw [at_c]; rfl) (by simp [SysctlPc.freeing]) (by simp)
  next slock =>
    obtain ⟨free, done⟩ := Option.ite_none_right_eq_some.mp step
    obtain rfl := Option.some.inj done
    refine h.move (c := c) (p := .find call) apart ⟨rfl, rfl, rfl, rfl, rfl, rfl, rfl⟩
      (h.lock.slock free outside (by simpa [SysctlPc.shared] using slock) (by simpa [SysctlPc.exclusive] using slock))
      (fun _ other => goto_pc_ne _ _ other)
      (goto_pc_self ..) (fun g ref => absurd ref (List.not_mem_nil)) (by rw [at_c]; rfl) (by simp [SysctlPc.freeing]) (by simp)

/-- What follows in a list is in it. -/
theorem tailqNext_mem {l : List Gid} {g next : Gid} (at_next : tailqNext l g = some next) : next ∈ l := by
  induction l with
  | nil => simp [tailqNext] at at_next
  | cons a rest ih =>
    simp only [tailqNext] at at_next
    split at at_next
    next => exact List.mem_cons_of_mem _ (List.mem_of_mem_head? at_next)
    next => exact List.mem_cons_of_mem _ (ih at_next)

/-- The sibling after a child that is still there. -/
theorem nextSibling_mem {tmp next : Gid} (inside : tmp ∈ (s.groups sg).children)
    (at_next : s.nextSibling sg tmp = some next) : next ∈ (s.groups sg).children := by
  rw [nextSibling, if_pos inside] at at_next
  exact tailqNext_mem at_next

/-- The group after one that is still listed. -/
theorem nextLink_mem {next : Gid} (listed : g ∈ s.allSchedGroups) (at_next : s.nextLink g = some next) :
    next ∈ s.allSchedGroups := by
  rw [nextLink, if_pos listed] at at_next
  exact tailqNext_mem at_next

theorem Inv.children_step {id : Int} (h : Inv K s) (apart : s.Apart) (at_c : s.pc c = .children sg id)
    (step : sysctlStep K s c = some s') : Inv K s' := by
  have fits := h.pc c
  rw [at_c] at fits
  have live : s.Live sg := apart.live (fits sg (by simp [SysctlPc.refs])) (by simp [at_c, SysctlPc.refs])
  have notHere : (s.pc c).leaving = none := by rw [at_c]; rfl
  simp only [sysctlStep, at_c] at step
  split at step
  next tmp first =>
    obtain rfl := Option.some.inj step
    obtain ⟨listed, parent, _⟩ := h.tree.child sg live.1 tmp (List.mem_of_mem_head? first)
    exact h.goto apart (by simp [at_c, SysctlPc.shared]) (by simp [at_c, SysctlPc.exclusive])
      ⟨.inl live, h.found_held notHere listed, parent⟩ notHere (by simp [SysctlPc.freeing]) (by simp)
  next =>
    obtain rfl := Option.some.inj step
    exact h.goto apart (by simp [at_c, SysctlPc.shared]) (by simp [at_c, SysctlPc.exclusive])
      (fun g ref => absurd ref (List.not_mem_nil)) notHere (by simp [SysctlPc.freeing]) (by simp)

theorem Inv.child_step {id : Int} {tmp : Gid} (h : Inv K s) (apart : s.Apart) (at_c : s.pc c = .child sg id tmp)
    (step : sysctlStep K s c = some s') : Inv K s' := by
  have fits := h.pc c
  rw [at_c] at fits
  have live : s.Live sg := apart.live fits.1 (by simp [at_c, SysctlPc.refs])
  have liveTmp : s.Live tmp := apart.live fits.2.1 (by simp [at_c, SysctlPc.refs])
  have inside : tmp ∈ (s.groups sg).children := by
    have other : tmp ≠ 0 := by
      rintro rfl
      have root := h.tree.root.2
      rw [fits.2.2] at root
      exact absurd root (by simp)
    obtain ⟨p, parent, _, member | halfway⟩ := h.tree.parent tmp liveTmp.1 other
    · rw [fits.2.2] at parent
      exact Option.some.inj parent ▸ member
    · exact absurd (h.halfway halfway).1 liveTmp.2
  have notHere : (s.pc c).leaving = none := by rw [at_c]; rfl
  simp only [sysctlStep, at_c] at step
  split at step
  next next at_next =>
    obtain rfl := Option.some.inj step
    obtain ⟨listed, parent, _⟩ := h.tree.child sg live.1 next (nextSibling_mem inside at_next)
    have held := h.found_held notHere listed
    exact (h.emit (c := c) _).goto (apart.emit _) (by simp [at_c, SysctlPc.shared])
      (by simp [at_c, SysctlPc.exclusive]) ⟨.inl live, held, parent⟩ notHere (by simp [SysctlPc.freeing]) (by simp)
  next =>
    obtain rfl := Option.some.inj step
    exact (h.emit (c := c) _).goto (apart.emit _) (by simp [at_c, SysctlPc.shared])
      (by simp [at_c, SysctlPc.exclusive]) (fun g ref => absurd ref (List.not_mem_nil)) notHere
      (by simp [SysctlPc.freeing]) (by simp)

theorem Inv.call_step {call : SysctlCall} (h : Inv K s) (apart : s.Apart) (at_c : s.pc c = .idle) :
    Inv K (s.goto c (.lock call)) :=
  h.goto apart (by simp [at_c, SysctlPc.shared]) (by simp [at_c, SysctlPc.exclusive])
    (fun g ref => absurd ref (List.not_mem_nil)) (by rw [at_c]; rfl) (by simp [SysctlPc.freeing]) (by simp)

/-- Every step of every handler that is made while no one else has a pointer to a group
that is being taken apart keeps the tree. -/
theorem sysctlStep_inv (h : Inv K s) (apart : s.Apart) (step : sysctlStep K s c = some s') : Inv K s' := by
  have fits := h.pc c
  cases at_c : s.pc c with
  | idle => simp [sysctlStep, at_c] at step
  | lock call => exact h.lock_step apart at_c step
  | find call =>
    have inside : ((s.pc c).shared ↔ call.xlock = false) ∧ ((s.pc c).exclusive ↔ call.xlock = true) := by
      rw [at_c]
      exact ⟨.rfl, .rfl⟩
    have notHere : (s.pc c).leaving = none := by rw [at_c]; rfl
    simp only [sysctlStep, at_c] at step
    split at step
    · obtain rfl := Option.some.inj step
      exact h.leads apart (missed_leads s c call) inside.1 inside.2 notHere
    · obtain rfl := Option.some.inj step
      refine h.leads apart (walk_leads s c call _ fun g first => ?_) inside.1 inside.2 notHere
      exact h.found_held notHere (List.mem_of_mem_head? first)
  | walk call sg =>
    have inside : ((s.pc c).shared ↔ call.xlock = false) ∧ ((s.pc c).exclusive ↔ call.xlock = true) := by
      rw [at_c]
      exact ⟨.rfl, .rfl⟩
    have notHere : (s.pc c).leaving = none := by rw [at_c]; rfl
    rw [at_c] at fits
    have live : s.Live sg := apart.live (fits sg (by simp [SysctlPc.refs])) (by simp [at_c, SysctlPc.refs])
    simp only [sysctlStep, at_c] at step
    split at step
    · obtain rfl := Option.some.inj step
      exact h.leads apart (found_leads K s c call (.inl live)) inside.1 inside.2 notHere
    · obtain rfl := Option.some.inj step
      refine h.leads apart (walk_leads s c call _ fun g next => ?_) inside.1 inside.2 notHere
      exact h.found_held notHere (nextLink_mem live.1 next)
  | findByName parent param =>
    rw [at_c] at fits
    simp only [sysctlStep, at_c] at step
    split at step
    · obtain rfl := Option.some.inj step
      exact h.goto apart (by simp [at_c, SysctlPc.shared]) (by simp [at_c, SysctlPc.exclusive])
        (fun g ref => absurd ref (List.not_mem_nil)) (by rw [at_c]; rfl) (by simp [SysctlPc.freeing]) (by simp)
    · obtain rfl := Option.some.inj step
      exact h.goto apart (by simp [at_c, SysctlPc.shared]) (by simp [at_c, SysctlPc.exclusive]) fits
        (by rw [at_c]; rfl) (by simp [SysctlPc.freeing]) (by simp)
  | create parent param =>
    simp only [sysctlStep, at_c, Option.some.injEq] at step
    exact step ▸ h.create_step apart at_c
  | move sg tds =>
    cases tds with
    | nil =>
      simp only [sysctlStep, at_c, Option.some.injEq] at step
      subst step
      exact h.goto apart (by simp [at_c, SysctlPc.shared]) (by simp [at_c, SysctlPc.exclusive])
        (fun g ref => absurd ref (List.not_mem_nil)) (by rw [at_c]; rfl) (by simp [SysctlPc.freeing]) (by simp)
    | cons td tds =>
      simp only [sysctlStep, at_c, Option.some.injEq] at step
      exact step ▸ h.move_step apart at_c
  | oldShares sg old shares =>
    rw [at_c] at fits
    have h' : Inv K (if old then s.emit c (.shares (s.groups sg).shares) else s) := by
      split
      · exact h.emit _
      · exact h
    have apart' : (if old then s.emit c (.shares (s.groups sg).shares) else s).Apart := by
      split
      · exact apart.emit _
      · exact apart
    have at_c' : (if old then s.emit c (.shares (s.groups sg).shares) else s).pc c = .oldShares sg old shares := by
      split <;> exact at_c
    have fits' := h'.pc c
    rw [at_c'] at fits'
    simp only [sysctlStep, at_c] at step
    split at step
    · obtain rfl := Option.some.inj step
      exact h'.goto apart' (by simp [at_c', SysctlPc.shared]) (by simp [at_c', SysctlPc.exclusive]) fits'
        (by rw [at_c']; rfl) (by simp [SysctlPc.freeing]) (by simp)
    · obtain rfl := Option.some.inj step
      exact h'.goto apart' (by simp [at_c', SysctlPc.shared]) (by simp [at_c', SysctlPc.exclusive])
        (fun g ref => absurd ref (List.not_mem_nil)) (by rw [at_c']; rfl) (by simp [SysctlPc.freeing]) (by simp)
  | setShares sg shares =>
    simp only [sysctlStep, at_c, Option.some.injEq] at step
    exact step ▸ h.setShares_step apart at_c
  | children sg id => exact h.children_step apart at_c step
  | child sg id tmp => exact h.child_step apart at_c step
  | childless sg =>
    rw [at_c] at fits
    simp only [sysctlStep, at_c] at step
    split at step
    next => 
      obtain rfl := Option.some.inj step
      exact h.goto apart (by simp [at_c, SysctlPc.shared]) (by simp [at_c, SysctlPc.exclusive])
        (fun g ref => absurd ref (List.not_mem_nil)) (by rw [at_c]; rfl) (by simp [SysctlPc.freeing]) (by simp)
    next empty =>
      obtain rfl := Option.some.inj step
      exact h.goto apart (by simp [at_c, SysctlPc.shared]) (by simp [at_c, SysctlPc.exclusive])
        ⟨fits sg (by simp [SysctlPc.refs]), not_not.mp empty⟩ (by rw [at_c]; rfl) (by simp [SysctlPc.freeing]) (by simp)
  | threadless sg =>
    rw [at_c] at fits
    simp only [sysctlStep, at_c] at step
    split at step
    next =>
      obtain rfl := Option.some.inj step
      exact h.goto apart (by simp [at_c, SysctlPc.shared]) (by simp [at_c, SysctlPc.exclusive])
        (fun g ref => absurd ref (List.not_mem_nil)) (by rw [at_c]; rfl) (by simp [SysctlPc.freeing]) (by simp)
    next empty =>
      obtain rfl := Option.some.inj step
      exact h.goto apart (by simp [at_c, SysctlPc.shared]) (by simp [at_c, SysctlPc.exclusive])
        ⟨apart.live fits.1 (by simp [at_c, SysctlPc.refs]), fits.2, not_not.mp empty⟩ (by rw [at_c]; rfl)
        (by simp [at_c, SysctlPc.freeing, SysctlPc.refs]) (by simp)
  | unregister sg =>
    simp only [sysctlStep, at_c, Option.some.injEq] at step
    exact step ▸ h.unregister_step apart at_c
  | unlink sg => exact h.unlink_step apart at_c step
  | delist sg =>
    simp only [sysctlStep, at_c, Option.some.injEq] at step
    exact step ▸ h.delist_step apart at_c
  | freeUnr sg =>
    simp only [sysctlStep, at_c, Option.some.injEq] at step
    exact step ▸ h.freeUnr_step apart at_c
  | free sg =>
    simp only [sysctlStep, at_c, Option.some.injEq] at step
    exact step ▸ h.free_step apart at_c
  | sunlock error =>
    simp only [sysctlStep, at_c, Option.some.injEq] at step
    subst step
    have lock := h.lock.sunlock (c := c) (p := .idle) (by simp [at_c, SysctlPc.exclusive]) id id
    exact h.move (c := c) (p := .idle) apart ⟨rfl, rfl, rfl, rfl, rfl, rfl, rfl⟩
      ⟨lock.shared, lock.once, lock.exclusive, lock.apart⟩ (fun _ other => goto_pc_ne _ _ other) (goto_pc_self ..)
      (fun g ref => absurd ref (List.not_mem_nil)) (by rw [at_c]; rfl) (by simp [SysctlPc.freeing]) (by simp)
  | unlock child error =>
    rw [at_c] at fits
    simp only [sysctlStep, at_c] at step
    cases child with
    | some child =>
      obtain rfl := Option.some.inj step
      have lock := h.lock.unlock (c := c) (p := .readId child) (by simp [at_c, SysctlPc.exclusive]) id id
      exact h.move (c := c) (p := .readId child) apart ⟨rfl, rfl, rfl, rfl, rfl, rfl, rfl⟩
        ⟨lock.shared, lock.once, lock.exclusive, lock.apart⟩ (fun _ other => goto_pc_ne _ _ other) (goto_pc_self ..)
        fits (by rw [at_c]; rfl) (by simp [SysctlPc.freeing]) (by simp)
    | none =>
      obtain rfl := Option.some.inj step
      have lock := h.lock.unlock (c := c) (p := .idle) (by simp [at_c, SysctlPc.exclusive]) id id
      exact h.move (c := c) (p := .idle) apart ⟨rfl, rfl, rfl, rfl, rfl, rfl, rfl⟩
        ⟨lock.shared, lock.once, lock.exclusive, lock.apart⟩ (fun _ other => goto_pc_ne _ _ other) (goto_pc_self ..)
        (fun g ref => absurd ref (List.not_mem_nil)) (by rw [at_c]; rfl) (by simp [SysctlPc.freeing]) (by simp)
  | readId child =>
    simp only [sysctlStep, at_c, Option.some.injEq] at step
    subst step
    exact ((h.emit (c := c) _).emit (c := c) _).goto ((apart.emit _).emit _) (by simp [at_c, SysctlPc.shared])
      (by simp [at_c, SysctlPc.exclusive]) (fun g ref => absurd ref (List.not_mem_nil)) (by simp only [emit_pc, at_c]; rfl)
      (by simp [SysctlPc.freeing]) (by simp)

end steps
end GroupTree
end SfqSched
