import SfqSched.GroupTreeSafe

namespace SfqSched
open Function
namespace GroupTree

/-- What the search by name looks at: everything up to the first that is found. -/
def examined (p : Gid → Bool) (l : List Gid) : List Gid := l.take (l.findIdx p + 1)

/-- The groups the next step of a handler reads or writes. Putting a group on a list or taking
it off also writes to its neighbours, for which the whole list stands. -/
def touched (s : GroupTree) (c : Nat) : List Gid :=
  match s.pc c with
  | .walk _ sg => [sg]
  | .findByName parent param =>
    parent :: examined (fun g => (s.groups g).name = param.name) (s.groups parent).children
  | .create parent _ => parent :: s.allSchedGroups
  | .move sg (td :: _) => [s.groupOf td, sg]
  | .oldShares sg _ _ | .setShares sg _ | .children sg _ => [sg]
  | .child _ _ tmp => [tmp]
  | .childless sg | .threadless sg | .unregister sg | .freeUnr sg | .free sg => [sg]
  | .unlink sg => sg :: (s.groups sg).parent.toList ++ s.allSchedGroups
  | .delist sg => sg :: s.allSchedGroups
  | .readId child => [child]
  | _ => []

/-- The group and its ancestors. -/
def chain (s : GroupTree) (g : Gid) : List Gid := climb (fun g => (s.groups g).parent) s.ngroups (some g)

/-- The groups whose queue or entity the next step of a handler reads or writes. -/
def touchedQuarters (s : GroupTree) (c : Nat) : List Gid :=
  match s.pc c with
  | .create parent _ => [parent]
  | .move sg (td :: _) => if s.groupOf td = sg then [] else s.chain (s.groupOf td) ++ s.chain sg
  | .setShares sg _ => s.chain sg
  | .unregister sg => [sg]
  | _ => []

/-- The groups are freed once and not used afterwards, and the list is the tree. Between its two
`TAILQ_REMOVE`s a destroy has its group still on the list, and nobody else is inside the lock. -/
structure Safe (s : GroupTree) : Prop where
  freed : s.freed.Nodup ∧ s.quarters.Nodup
  returned : s.returned.Nodup
  touched : s.Apart → ∀ c, ∀ g ∈ s.touched c, g ∉ s.freed
  touchedQuarters : s.Apart → ∀ c, ∀ g ∈ s.touchedQuarters c, g ∉ s.quarters
  once : s.allSchedGroups.Nodup
  reachable : ∀ g, Relation.ReflTransGen (fun a b => b ∈ (s.groups a).children) 0 g ↔
    g ∈ s.allSchedGroups ∧ ¬s.Halfway g

/-- The runs in which every step is made while nobody else is inside the lock, or has a pointer to the group,
if a group is being taken apart. -/
inductive ApartRun (K : SysctlKernel) : GroupTree → Prop
  | boot : ApartRun K (groupTreeBoot K)
  | step {s s' a} : ApartRun K s → s.Apart → sysctlRun K s a = some s' → ApartRun K s'

section run
variable {K : SysctlKernel} {s s' : GroupTree} {c : Nat} {g : Gid}

theorem missed_ne_move (call : SysctlCall) (sg : Gid) (tds : List Tid) : call.missed ≠ .move sg tds := by
  unfold SysctlCall.missed
  split <;> simp

theorem walk_ne_move (call : SysctlCall) (o : Option Gid) (sg : Gid) (tds : List Tid) :
    (o.map (SysctlPc.walk call)).getD call.missed ≠ .move sg tds := by
  cases o with
  | none => exact missed_ne_move call sg tds
  | some g => simp

/-- A step leaves the other handlers where they are, and one that is to move threads got them from
the process or has already begun. -/
theorem sysctlStep_pc (step : sysctlStep K s c = some s') :
    ∃ pc, s'.pc = update s.pc c pc ∧ ∀ sg tds, pc = .move sg tds →
      (∃ call a, SysctlCall.found K a call = .move sg tds) ∨ ∃ td, s.pc c = .move sg (td :: tds) := by
  have moved (td : Tid) (sg : Gid) : (s.moveThread td sg).pc = s.pc := by
    by_cases same : s.groupOf td = sg <;> simp [moveThread, same, modGroup]
  have stored (sg : Gid) (shares : Nat) : (s.storeShares sg shares).pc = s.pc := by
    by_cases root : (s.groups sg).parent = none <;> simp [storeShares, root, modGroup]
  unfold sysctlStep at step
  cases at_c : s.pc c with
  | idle => simp [at_c] at step
  | lock call =>
    simp only [at_c] at step
    split at step
    · obtain rfl := Option.some.inj (Option.ite_none_right_eq_some.mp step).2
      exact ⟨_, rfl, by simp⟩
    · obtain rfl := Option.some.inj (Option.ite_none_right_eq_some.mp step).2
      exact ⟨_, rfl, by simp⟩
  | find call =>
    simp only [at_c] at step
    split at step
    · obtain rfl := Option.some.inj step
      exact ⟨_, rfl, fun sg tds same => absurd same (missed_ne_move call sg tds)⟩
    · obtain rfl := Option.some.inj step
      exact ⟨_, rfl, fun sg tds same => absurd same (walk_ne_move call _ sg tds)⟩
  | walk call sg =>
    simp only [at_c] at step
    split at step
    · obtain rfl := Option.some.inj step
      exact ⟨_, rfl, fun sg' tds same => .inl ⟨call, sg, same⟩⟩
    · obtain rfl := Option.some.inj step
      exact ⟨_, rfl, fun sg' tds same => absurd same (walk_ne_move call _ sg' tds)⟩
  | move sg tds =>
    cases tds with
    | nil =>
      simp only [at_c, Option.some.injEq] at step
      subst step
      exact ⟨_, rfl, by simp⟩
    | cons td tds =>
      simp only [at_c, Option.some.injEq] at step
      subst step
      refine ⟨.move sg tds, by simp [goto, moved], fun sg' tds' same => .inr ⟨td, ?_⟩⟩
      obtain ⟨rfl, rfl⟩ := SysctlPc.move.inj same
      rfl
  | setShares sg shares =>
    simp only [at_c, Option.some.injEq] at step
    subst step
    exact ⟨.sunlock 0, by simp [goto, stored], by simp⟩
  | oldShares sg old shares =>
    simp only [at_c] at step
    have kept : (if old then s.emit c (.shares (s.groups sg).shares) else s).pc = s.pc := by split <;> rfl
    split at step
    · obtain rfl := Option.some.inj step
      exact ⟨_, congrArg (update · c _) kept, by simp⟩
    · obtain rfl := Option.some.inj step
      exact ⟨_, congrArg (update · c _) kept, by simp⟩
  | unlink sg =>
    simp only [at_c] at step
    obtain ⟨p, _, rfl⟩ := Option.map_eq_some_iff.mp step
    exact ⟨.delist sg, rfl, by simp⟩
  | unlock child error =>
    simp only [at_c] at step
    cases child <;> (obtain rfl := Option.some.inj step; exact ⟨_, rfl, by simp⟩)
  | findByName parent param =>
    simp only [at_c] at step
    split at step <;> (obtain rfl := Option.some.inj step; exact ⟨_, rfl, by simp⟩)
  | children sg id =>
    simp only [at_c] at step
    split at step <;> (obtain rfl := Option.some.inj step; exact ⟨_, rfl, by simp⟩)
  | child sg id tmp =>
    simp only [at_c] at step
    split at step <;> (obtain rfl := Option.some.inj step; exact ⟨_, rfl, by simp⟩)
  | childless sg =>
    simp only [at_c] at step
    split at step <;> (obtain rfl := Option.some.inj step; exact ⟨_, rfl, by simp⟩)
  | threadless sg =>
    simp only [at_c] at step
    split at step <;> (obtain rfl := Option.some.inj step; exact ⟨_, rfl, by simp⟩)
  | _ =>
    simp only [at_c, Option.some.injEq] at step
    subst step
    exact ⟨_, rfl, by simp⟩

/-- The threads to be moved are registered. -/
def Registered (K : SysctlKernel) (s : GroupTree) : Prop := ∀ c sg tds, s.pc c = .move sg tds → tds ⊆ K.threads

theorem found_registered {call : SysctlCall} {a : Gid} {tds : List Tid} (found : call.found K a = .move g tds) :
    tds ⊆ K.threads := by
  cases call with
  | move pid id =>
    obtain ⟨_, same⟩ := SysctlPc.move.inj found
    cases at_procs : K.procs pid with
    | none =>
      rw [at_procs] at same
      exact same ▸ List.nil_subset _
    | some own =>
      rw [at_procs] at same
      exact same ▸ K.registered pid own at_procs
  | create id param =>
    cases param with
    | none => exact SysctlPc.noConfusion found
    | some param =>
      by_cases blank : param.name = ""
      · have same : (SysctlCall.create id (some param)).found K a = .create a (some param) := if_pos blank
        exact SysctlPc.noConfusion (same.symm.trans found)
      · have same : (SysctlCall.create id (some param)).found K a = .findByName a param := if_neg blank
        exact SysctlPc.noConfusion (same.symm.trans found)
  | setShares id old shares => exact SysctlPc.noConfusion found
  | getSubGroups id => exact SysctlPc.noConfusion found
  | destroy id => exact SysctlPc.noConfusion found

theorem Registered.step (h : Registered K s) (step : sysctlStep K s c = some s') : Registered K s' := by
  obtain ⟨pc, pcs, own⟩ := sysctlStep_pc step
  intro u sg tds at_u
  rw [pcs] at at_u
  by_cases here : u = c
  · subst here
    rw [update_self] at at_u
    rcases own sg tds at_u with ⟨call, a, found⟩ | ⟨td, at_c⟩
    · exact found_registered found
    · exact fun t member => h u sg _ at_c (List.mem_cons_of_mem _ member)
  · rw [update_of_ne here] at at_u
    exact h u sg tds at_u

theorem boot_inv (K : SysctlKernel) : Inv K (groupTreeBoot K) := by
  refine ⟨⟨?_, List.nodup_nil, ?_, fun _ => rfl⟩, ⟨?_, List.nodup_singleton 0, ?_, ?_, ?_, ?_, ?_⟩,
    ⟨by simp [groupTreeBoot], by simp [groupTreeBoot], by simp [groupTreeBoot], List.nodup_nil, List.nodup_nil,
      List.nodup_nil⟩, ?_, ?_⟩
  · intro c
    simp [groupTreeBoot, SysctlPc.shared]
  · intro c
    simp [groupTreeBoot, SysctlPc.exclusive]
  · simp [groupTreeBoot]
  · simp [groupTreeBoot]
  · simp [groupTreeBoot]
  · simp [groupTreeBoot]
  · simp [groupTreeBoot]
  · simp [groupTreeBoot]
  · intro c g ref
    exact absurd ref (List.not_mem_nil)
  · intro c c' g freeing
    simp [groupTreeBoot, SysctlPc.freeing] at freeing

theorem ApartRun.inv (run : ApartRun K s) : Inv K s ∧ Registered K s := by
  induction run with
  | boot =>
    refine ⟨boot_inv K, fun c sg tds at_c => ?_⟩
    simp [groupTreeBoot] at at_c
  | @step s s' a _ apart step ih =>
    cases a with
    | go c => exact ⟨sysctlStep_inv ih.1 apart step, ih.2.step step⟩
    | call c call =>
      simp only [sysctlRun] at step
      split at step
      next idle =>
        obtain rfl := Option.some.inj step
        refine ⟨ih.1.call_step apart idle, fun u sg tds at_u => ?_⟩
        by_cases here : u = c
        · rw [here, goto_pc_self] at at_u
          exact absurd at_u (by simp)
        · rw [goto_pc_ne _ _ here] at at_u
          exact ih.2 u sg tds at_u
      next => exact absurd step (by simp)

/-- The list and the tree have the same groups, but for one that is just taken off. -/
theorem Inv.reachable (h : Inv K s) (g : Gid) : Relation.ReflTransGen (fun a b => b ∈ (s.groups a).children) 0 g ↔
    g ∈ s.allSchedGroups ∧ ¬s.Halfway g := by
  constructor
  · intro path
    induction path with
    | refl => exact ⟨h.tree.root.1, fun halfway => h.root_busy (h.halfway halfway).2⟩
    | @tail a b _ inside ih =>
      refine ⟨(h.tree.child a ih.1 b inside).1, fun ⟨v, at_v⟩ => ?_⟩
      have fits := h.pc v
      rw [at_v] at fits
      exact fits.2 a ih.1 inside
  · induction g using Nat.strongRecOn with
    | _ g ih =>
      rintro ⟨listed, hangs⟩
      by_cases root : g = 0
      · rw [root]
      · obtain ⟨p, _, inP, inside | halfway⟩ := h.tree.parent g listed root
        · have busy (halfway : s.Halfway p) : False := by
            have empty := (h.halfway halfway).2.1
            rw [empty] at inside
            exact List.not_mem_nil inside
          exact (ih p (h.tree.child p inP g inside).2.2 ⟨inP, busy⟩).tail inside
        · exact absurd halfway hangs

theorem Inv.listed_unfreed (h : Inv K s) (listed : g ∈ s.allSchedGroups) : g ∉ s.freed := fun member =>
  (h.freed.freed g member).2 listed

theorem Inv.examined_unfreed (h : Inv K s) {p : Gid → Bool} {l : List Gid} (listed : l ⊆ s.allSchedGroups) :
    ∀ g ∈ examined p l, g ∉ s.freed := fun _ member => h.listed_unfreed (listed (List.mem_of_mem_take member))

/-- What the next step of a handler uses has not been freed. -/
theorem Inv.touched (h : Inv K s) (registered : Registered K s) (apart : s.Apart) (c : Nat) :
    ∀ g ∈ s.touched c, g ∉ s.freed := by
  have fits := h.pc c
  have all : ∀ g ∈ s.allSchedGroups, g ∉ s.freed := fun g => h.listed_unfreed
  have held (g : Gid) (held : s.Held c g) (ref : g ∈ (s.pc c).refs) : g ∉ s.freed :=
    h.listed_unfreed (apart.live held ref).1
  have first (sg : Gid) (pc : SysctlPc) (at_c : s.pc c = pc) (refs : pc.refs = [sg])
      (fits : ∀ g ∈ pc.refs, s.Held c g) : sg ∉ s.freed := by
    have ref : sg ∈ pc.refs := by simp [refs]
    exact held sg (fits sg ref) (at_c ▸ ref)
  unfold GroupTree.touched
  cases at_c : s.pc c with
  | idle => simp
  | lock call => simp
  | find call => simp
  | walk call sg =>
    rw [at_c] at fits
    simpa using first sg _ at_c rfl fits
  | findByName parent param =>
    rw [at_c] at fits
    have live := apart.live (fits parent (by simp [SysctlPc.refs])) (by simp [at_c, SysctlPc.refs])
    intro g member
    rcases List.mem_cons.mp member with rfl | among
    · exact h.listed_unfreed live.1
    · exact h.examined_unfreed (fun b inside => (h.tree.child parent live.1 b inside).1) g among
  | create parent param =>
    rw [at_c] at fits
    intro g member
    rcases List.mem_cons.mp member with rfl | listed
    · exact first g _ at_c rfl fits
    · exact all g listed
  | move sg tds =>
    rw [at_c] at fits
    cases tds with
    | nil => simp
    | cons td tds =>
      have member := registered c sg _ at_c (List.mem_cons_self ..)
      have theirs := h.listed_unfreed (h.tree.thread td member).1
      simpa [theirs] using first sg _ at_c rfl fits
  | oldShares sg old shares =>
    rw [at_c] at fits
    simpa using first sg _ at_c rfl fits
  | setShares sg shares =>
    rw [at_c] at fits
    simpa using first sg _ at_c rfl fits
  | children sg id =>
    rw [at_c] at fits
    simpa using first sg _ at_c rfl fits
  | child sg id tmp =>
    rw [at_c] at fits
    simpa using held tmp fits.2.1 (by simp [at_c, SysctlPc.refs])
  | childless sg =>
    rw [at_c] at fits
    simpa using first sg _ at_c rfl fits
  | threadless sg =>
    rw [at_c] at fits
    simpa using held sg fits.1 (by simp [at_c, SysctlPc.refs])
  | unregister sg =>
    rw [at_c] at fits
    simpa using all sg fits.1.1
  | unlink sg =>
    rw [at_c] at fits
    obtain ⟨listed, _, empty, _, _⟩ := fits
    have other : sg ≠ 0 := by
      rintro rfl
      exact h.root_busy empty
    obtain ⟨p, parent, inP, _⟩ := h.tree.parent sg listed other
    intro g member
    simp only [parent, Option.toList_some, List.cons_append, List.nil_append, List.mem_cons] at member
    rcases member with rfl | rfl | listed
    · exact all g listed
    · exact all g inP
    · exact all g listed
  | delist sg =>
    rw [at_c] at fits
    intro g member
    rcases List.mem_cons.mp member with rfl | listed
    · exact all g fits.1.1
    · exact all g listed
  | freeUnr sg =>
    rw [at_c] at fits
    simpa using fits.2.2.2
  | free sg =>
    rw [at_c] at fits
    simpa using fits.2.2
  | sunlock error => simp
  | unlock child error => simp
  | readId child =>
    rw [at_c] at fits
    simpa using first child _ at_c rfl fits

theorem Inv.chain (h : Inv K s) (live : s.Live g) : ∀ a ∈ s.chain g, a ∉ s.quarters := fun a member =>
  (h.ancestors live _ a member).2

/-- Nor has its queue and entity. -/
theorem Inv.touchedQuarters (h : Inv K s) (registered : Registered K s) (apart : s.Apart) (c : Nat) :
    ∀ g ∈ s.touchedQuarters c, g ∉ s.quarters := by
  have fits := h.pc c
  have live (g : Gid) (pc : SysctlPc) (at_c : s.pc c = pc) (ref : g ∈ pc.refs) (fits : ∀ g ∈ pc.refs, s.Held c g) :
      s.Live g := apart.live (fits g ref) (at_c ▸ ref)
  unfold GroupTree.touchedQuarters
  split
  next parent param at_c =>
    rw [at_c] at fits
    simpa using (live parent _ at_c (by simp [SysctlPc.refs]) fits).2
  next sg td tds at_c =>
    rw [at_c] at fits
    obtain ⟨listed, inside⟩ := h.tree.thread td (registered c sg _ at_c (List.mem_cons_self ..))
    have theirs : s.Live (s.groupOf td) := h.busy listed fun empty => by
      rw [empty.2] at inside
      exact List.not_mem_nil inside
    have ours := live sg _ at_c (by simp [SysctlPc.refs]) fits
    intro g member
    split at member
    · exact absurd member (List.not_mem_nil)
    · rcases List.mem_append.mp member with old | new
      · exact h.chain theirs g old
      · exact h.chain ours g new
  next sg shares at_c =>
    rw [at_c] at fits
    exact h.chain (live sg _ at_c (by simp [SysctlPc.refs]) fits)
  next sg at_c =>
    rw [at_c] at fits
    simpa using fits.1.2
  next => simp

/-- In such runs the handlers are safe. -/
theorem sysctl_handlers_safe (K : SysctlKernel) (s : GroupTree) (run : ApartRun K s) : s.Safe := by
  obtain ⟨h, registered⟩ := run.inv
  exact ⟨⟨h.freed.freedOnce, h.freed.quartersOnce⟩, h.freed.returnedOnce, h.touched registered,
    h.touchedQuarters registered, h.tree.once, h.reachable⟩

/-- `Apart` for handlers with numbers below `n`. -/
def apartBelow (s : GroupTree) (n : Nat) : Bool :=
  (List.range n).all fun c => (s.pc c).freeing.all fun g =>
    (List.range n).all fun c' => c' == c || !(s.pc c').inside && !(s.pc c').refs.contains g

theorem apart_below {n : Nat} (idle : ∀ v, n ≤ v → s.pc v = .idle) (checked : s.apartBelow n) : s.Apart := by
  intro c g freeing c' other
  have below : c < n := by
    by_contra beyond
    rw [idle c (Nat.le_of_not_lt beyond)] at freeing
    exact absurd freeing (by simp [SysctlPc.freeing])
  by_cases beyond : n ≤ c'
  · rw [idle c' beyond]
    exact ⟨rfl, List.not_mem_nil⟩
  · simp only [apartBelow, List.all_eq_true, List.mem_range] at checked
    have others := checked c below
    rw [freeing] at others
    have one := (List.all_eq_true.mp others) c' (List.mem_range.mpr (Nat.lt_of_not_le beyond))
    simpa [other] using one

/-- A run of handlers with numbers below `n` that checks every state it goes on from. -/
def apartRun (K : SysctlKernel) (n : Nat) (s : GroupTree) (a : SysctlAction) : Option GroupTree :=
  if a.handler < n ∧ s.apartBelow n then sysctlRun K s a else none

/-- Only the handler itself changes its place. -/
theorem sysctlRun_pc {a : SysctlAction} (step : sysctlRun K s a = some s') {v : Nat} (other : v ≠ a.handler) :
    s'.pc v = s.pc v := by
  cases a with
  | go c =>
    obtain ⟨pc, pcs, _⟩ := sysctlStep_pc step
    rw [pcs]
    exact update_of_ne other pc s.pc
  | call c call =>
    simp only [sysctlRun] at step
    split at step
    · obtain rfl := Option.some.inj step
      exact goto_pc_ne _ _ other
    · exact absurd step (by simp)

theorem ApartRun.checked {n : Nat} (actions : List SysctlAction) (run : ApartRun K s)
    (idle : ∀ v, n ≤ v → s.pc v = .idle) (steps : actions.foldlM (apartRun K n) s = some s') :
    ApartRun K s' ∧ ∀ v, n ≤ v → s'.pc v = .idle := by
  induction actions generalizing s with
  | nil => exact Option.some.inj steps ▸ ⟨run, idle⟩
  | cons a rest ih =>
    rw [List.foldlM_cons] at steps
    obtain ⟨mid, step, later⟩ := Option.bind_eq_some_iff.mp steps
    obtain ⟨⟨below, checked⟩, step⟩ := Option.ite_none_right_eq_some.mp step
    refine ih (run.step (apart_below idle checked) step) (fun v beyond => ?_) later
    exact (sysctlRun_pc step (Nat.ne_of_gt (Nat.lt_of_lt_of_le below beyond))).trans (idle v beyond)

end run

/-- One process of one thread, and ids from 1 on. -/
def oneThread : SysctlKernel where
  allocUnr := fun ids => (((List.range (ids.length + 1)).map fun n => (n : Int) + 1).find? (· ∉ ids)).getD (-1)
  threads := [0]
  procs := fun p => if p = 0 then some [0] else none
  some_thread := by simp
  registered := fun p tds found => by
    split at found
    · exact Option.some.inj found ▸ List.Subset.refl _
    · exact absurd found (by simp)

/-- Groups 1 and 2 are made under the root. Then the root's children are listed, the shares of 1 are set and 2 is
destroyed, all at once under the shared lock, while a create waits and a second destroy of 2 has not begun. -/
def sharedAtOnce : List SysctlAction :=
  [.call 0 (.create 0 none), .go 0, .go 0, .go 0, .go 0, .go 0, .go 0,
    .call 0 (.create 0 none), .go 0, .go 0, .go 0, .go 0, .go 0, .go 0,
    .call 1 (.getSubGroups 0), .call 2 (.setShares 1 true (some 5)), .call 3 (.destroy 2), .call 4 (.destroy 2),
    .go 1, .go 2, .go 3, .call 0 (.create 0 none), .go 1, .go 3, .go 2, .go 1, .go 3, .go 2, .go 3]

/-- The listing and the setting of shares come to their ends, the destroy goes on alone, and then the other two calls. -/
def thenAlone : List SysctlAction :=
  [.go 3, .go 1, .go 2, .go 3, .go 2, .go 1, .go 2, .go 1, .go 2, .go 1,
    .go 3, .go 3, .go 3, .go 3, .go 3, .go 3, .go 3, .go 4, .go 4, .go 4, .go 4, .go 4,
    .go 0, .go 0, .go 0, .go 0, .go 0, .go 0]

/-- Three calls are inside the lock at once and two wait. -/
theorem sysctl_handlers_safe_together :
    ∃ mid s, sharedAtOnce.foldlM (apartRun oneThread 5) (groupTreeBoot oneThread) = some mid ∧ mid.shared = [3, 2, 1] ∧
      mid.Safe ∧ thenAlone.foldlM (apartRun oneThread 5) mid = some s ∧ s.freed = [2] ∧ s.allSchedGroups = [0, 1, 3] ∧
      s.Safe := by
  have first := ApartRun.checked (K := oneThread) (n := 5) sharedAtOnce .boot (fun _ _ => rfl) rfl
  have second := ApartRun.checked (n := 5) thenAlone first.1 first.2 rfl
  exact ⟨_, _, rfl, rfl, sysctl_handlers_safe oneThread _ first.1, rfl, rfl, rfl,
    sysctl_handlers_safe oneThread _ second.1⟩

/-- A group is created, and two handlers are asked to destroy it. -/
def destroyTwice : List SysctlAction :=
  [.call 0 (.create 0 none), .go 0, .go 0, .go 0, .go 0, .go 0, .go 0,
    .call 1 (.destroy 1), .call 2 (.destroy 1), .go 1, .go 1, .go 1, .go 1, .go 2, .go 2, .go 2, .go 2,
    .go 1, .go 1, .go 1, .go 1, .go 1, .go 1, .go 1]

/-- Both have found the group under the shared lock: after the first has freed it the second reads it,
frees it again and returns its id again. -/
theorem sysctl_destroy_twice :
    ∃ s s', destroyTwice.foldlM (sysctlRun oneThread) (groupTreeBoot oneThread) = some s ∧
      s.freed = [1] ∧ s.touched 2 = [1] ∧
      [SysctlAction.go 2, .go 2, .go 2, .go 2, .go 2, .go 2, .go 2].foldlM (sysctlRun oneThread) s = some s' ∧
      s'.freed = [1, 1] ∧ s'.returned = [1, 1] := by
  refine ⟨_, _, rfl, rfl, rfl, rfl, rfl, rfl⟩

end GroupTree
end SfqSched
