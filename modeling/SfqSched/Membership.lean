import SfqSched.Settled
import Mathlib.Data.List.Infix

namespace SfqSched
open State Function

/-- Shares stay positive; nothing else is asked of a run. -/
def Conds.shared : Conds := ⟨True, False, False, False, False, False⟩

/-- Nothing is asked of a run. -/
def Conds.free : Conds := ⟨False, False, False, False, False, False⟩

theorem Op.meets_free (s : State) (op : Op) : op.meets .free s := by
  cases op with
  | schedClass t priClass => exact ⟨fun _ never => never.elim, fun never => never.elim⟩
  | fork p newProc stale => exact fun never => never.elim
  | setShares g shares => exact ⟨fun never => never.elim, fun never => never.elim⟩
  | nice p nice => exact id
  | _ => trivial

theorem Op.meets_shared (s : State) {op : Op} (asked : ∀ g, g ≠ 0 → op ≠ .setShares g 0) : op.meets .shared s := by
  cases op with
  | schedClass t priClass => exact ⟨fun _ never => never.elim, fun _ never => never.elim⟩
  | fork p newProc stale => exact fun never => never.elim
  | setShares g shares =>
    refine ⟨fun _ above zero => ?_, fun never => never.elim⟩
    rw [zero] at asked
    exact asked g above rfl
  | nice p nice => exact id
  | _ => trivial

section membership
variable {k : Kernel} {tun : Tunables} {ops : List Op} {s : State}

theorem run_free (ran : run k tun ops = some s) : Runs .free k tun ops s :=
  run_runs ops ran fun _ op _ a _ _ => op.meets_free a

theorem run_shared (ran : run k tun ops = some s) (asked : ∀ g, g ≠ 0 → Op.setShares g 0 ∉ ops) :
    Runs .shared k tun ops s := by
  refine run_runs ops ran fun before op after a split _ => op.meets_shared a fun g above same => asked g above ?_
  rw [split, same]
  simp

/-- Whose shares are positive all along was never asked for a share of `0`. -/
theorem never_zero (ran : run k tun ops = some s)
    (positive : ∀ before after a, ops = before ++ after → run k tun before = some a →
      ∀ g, 0 < g → g < a.ngroups → 0 < (a.grp g).shares) (g : Gid) (above : g ≠ 0) : Op.setShares g 0 ∉ ops := by
  intro member
  obtain ⟨before, after, split⟩ := List.append_of_mem member
  have whole : ops = (before ++ [.setShares g 0]) ++ after := by rw [split]; simp
  have cut := ran
  unfold run at cut
  obtain ⟨start, boot, steps⟩ := Option.bind_eq_some_iff.mp cut
  rw [whole, runFrom, List.foldlM_append] at steps
  obtain ⟨b, earlier, _⟩ := Option.bind_eq_some_iff.mp steps
  have there : run k tun (before ++ [.setShares g 0]) = some b := Option.bind_eq_some_iff.mpr ⟨start, boot, earlier⟩
  rw [List.foldlM_append] at earlier
  obtain ⟨a, first, last⟩ := Option.bind_eq_some_iff.mp earlier
  have settled := (run_free (Option.bind_eq_some_iff.mpr ⟨start, boot, first⟩)).settled
  have step : step a (.setShares g 0) = some b := by simpa using last
  unfold SfqSched.step at step
  split at step
  · rename_i enabled
    have inside : g < a.view.ngroups := of_decide_eq_true enabled
    cases step
    obtain ⟨zero, ngroups⟩ := setShares_zero settled.stands above inside id id
    have pos := positive _ after _ whole there g (Nat.pos_of_ne_zero above) (lt_of_lt_of_eq inside ngroups.symm)
    exact absurd zero pos.ne'
  · cases step

/-- A timeline holds what is joined to its queue and not current there. -/
theorem Settled.listed {C : Conds} (settled : Settled C s) (positive : C.positive) (q : Gid) (e : EntId) :
    e ∈ (s.sfq q).seq ↔ (s.ent e).joined ∧ e.pss (fun t => (s.td t).cls) ∧ (s.ent e).sfq = q ∧ (s.sfq q).curr ≠ some e := by
  have core := settled.stands.inv.core
  have tight := settled.stands.inv.tight positive
  have mem : e ∈ (s.sfq q).seq ↔ e ∈ s.view.timeline q := Multiset.mem_coe.symm
  rw [mem]
  constructor
  · intro member
    obtain ⟨joined, pss, place⟩ := core.member q e member
    refine ⟨joined, pss, place, fun there => ?_⟩
    have onSfq : s.view.onSfq e := (core.onSfq e).mpr (place.symm ▸ member)
    exact Bool.noConfusion ((tight.apart q e there).symm.trans onSfq)
  · rintro ⟨joined, pss, rfl, other⟩
    exact (core.covered e joined pss).resolve_right other

/-- Each queue's timeline holds the entities of `pss_class` that are joined to the queue
and not its current one, and the current ones are those above the running thread. -/
theorem queue_membership (k : Kernel) (tun : Tunables) (ops : List Op) (s : State) (ran : run k tun ops = some s)
    (positive : ∀ before after a, ops = before ++ after → run k tun before = some a →
      ∀ g, 0 < g → g < a.ngroups → 0 < (a.grp g).shares) (q : Gid) :
    (s.sfq q).seq.Nodup ∧
    (∀ e, e ∈ (s.sfq q).seq ↔ (s.ent e).joined ∧ e.pss (fun t => (s.td t).cls) ∧ (s.ent e).sfq = q ∧ (s.sfq q).curr ≠ some e) ∧
    (∀ e, (s.ent e).sfq = q → ((s.ent e).onSfq ↔ e ∈ (s.sfq q).seq)) ∧
    (∀ e, (s.sfq q).curr = some e ↔
      (s.td s.curthread).cls = .pss ∧ e ∈ walkup s (some (.thread s.curthread)) ∧ (s.ent e).sfq = q) ∧
    (∀ e, (s.sfq q).curr = some e → (s.ent e).joined) := by
  have settled := (run_shared ran fun g => never_zero ran positive g).settled
  have core := settled.stands.inv.core
  have mem (e : EntId) : e ∈ (s.sfq q).seq ↔ e ∈ s.view.timeline q := Multiset.mem_coe.symm
  have current (e : EntId) : (s.sfq q).curr = some e ↔
      (s.td s.curthread).cls = .pss ∧ e ∈ walkup s (some (.thread s.curthread)) ∧ (s.ent e).sfq = q := by
    refine (core.curr q e).trans ?_
    simp only [currentOn, cpuChain]
    split
    · rename_i pss
      exact (and_iff_right pss).symm
    · rename_i other
      exact iff_of_false (by simp) fun all => other all.1
  refine ⟨?_, settled.listed trivial q, fun e place => ?_, current, fun e there => ?_⟩
  · exact Multiset.coe_nodup.mp (core.nodup q)
  · subst place
    exact (core.onSfq e).trans (mem e).symm
  · exact settled.stands.busy.charged settled.stands.inv trivial e ((core.curr q e).mp there).1

/-- No group with a queued entity is itself off its parent's queue. -/
theorem no_stranded_group (k : Kernel) (tun : Tunables) (ops : List Op) (s : State) (ran : run k tun ops = some s)
    (asked : ∀ g, g ≠ 0 → Op.setShares g 0 ∉ ops) :
    (∀ g, 0 < g → g < s.ngroups → (s.grp g).se = some (.group g) ∧ (s.grp g).sfq = g ∧
      ((s.ent (.group g)).joined ↔ 0 < (s.sfq g).nrRunning) ∧
      (0 < (s.sfq g).nrRunning ↔ ∃ e, (s.ent e).joined ∧ e.pss (fun t => (s.td t).cls) ∧ (s.ent e).sfq = g)) ∧
    (∀ t, s.live t → (s.td t).cls = .pss → ((s.td t).tdState = .runq ∨ (s.td t).tdState = .running) →
      ∀ e ∈ walkup s (some (.thread t)), (s.ent e).joined ∧
        (e ∈ (s.sfq (s.ent e).sfq).seq ∨ (s.sfq (s.ent e).sfq).curr = some e)) := by
  have settled := (run_shared ran asked).settled
  have core := settled.stands.inv.core
  have tight := settled.stands.inv.tight trivial
  refine ⟨fun g above below => ?_, fun t live pss queued e member => ?_⟩
  · have owner : s.view.groupSe g = seOf g := core.hier.groupSe g below
    rw [seOf, if_neg above.ne'] at owner
    refine ⟨owner, core.hier.groupSfq g below, tight.groups g above below (by simp), ?_⟩
    obtain ⟨m, mem, _, count⟩ := core.accounts g
    have some_there : 0 < s.view.nr g ↔ ∃ e, s.view.joined e ∧ e.pss s.view.cls ∧ s.view.sfq e = g := by
      rw [count, Finset.card_pos]
      constructor
      · rintro ⟨e, inside⟩
        exact ⟨e, (mem e).mp inside⟩
      · rintro ⟨e, all⟩
        exact ⟨e, (mem e).mpr all⟩
    exact some_there
  · unfold State.live at live
    simp only [Bool.and_eq_true, Bool.not_eq_true'] at live
    have fits := settled.stands.roster.live t (of_decide_eq_true live.1) live.2
    have pss' : s.view.cls t = .pss := pss
    have joined : s.view.joined (.thread t) :=
      (fits.joined (by simpa [View.roster] using fun idle => by rw [pss'] at idle; cases idle)).mpr queued
    have links := core.hier.chain (e := .thread t) (Nat.lt_succ_self _)
    obtain ⟨there, kind⟩ := tight.chain core links ⟨joined, pss'⟩ e member
    refine ⟨there, (core.covered e there kind).imp (fun listed => ?_) id⟩
    exact Multiset.mem_coe.mp listed

end membership

/-- Shares are positive after every prefix of the operations. -/
def sharesPositive (k : Kernel) (tun : Tunables) (ops : List Op) : Bool :=
  ops.inits.all fun before => ((run k tun before).all fun s => decide (∀ g < s.ngroups, 0 < g → 0 < (s.grp g).shares))

theorem sharesPositive_spec {k : Kernel} {tun : Tunables} {ops : List Op} (checked : sharesPositive k tun ops)
    (before after : List Op) (a : State) (split : ops = before ++ after) (ran : run k tun before = some a) (g : Gid)
    (above : 0 < g) (below : g < a.ngroups) : 0 < (a.grp g).shares := by
  have one := List.all_eq_true.mp checked before ((List.mem_inits ..).mpr ⟨after, split.symm⟩)
  rw [ran] at one
  exact of_decide_eq_true one g below above

/-- A thread in a group below the root is made runnable. -/
def groupedWaiter : List Op := [.groupCreate 0 0, .fork 0 false {}, .groupMove 2 1, .add 2]

theorem queue_membership_grouped :
    ∃ s, run plainKernel {} groupedWaiter = some s ∧ .thread 2 ∈ (s.sfq 1).seq ∧ .group 1 ∈ (s.sfq 0).seq := by
  have result : (run plainKernel {} groupedWaiter).map (fun s =>
      (((s.ent (.thread 2)).joined, (s.td 2).cls, (s.ent (.thread 2)).sfq, (s.sfq 1).curr),
        ((s.ent (.group 1)).joined, (s.ent (.group 1)).sfq, (s.sfq 0).curr))) =
      some ((true, .pss, 1, none), (true, 0, some (.thread 0))) := by decide +kernel
  obtain ⟨s, ran, values⟩ := Option.map_eq_some_iff.mp result
  simp only [Prod.mk.injEq] at values
  obtain ⟨⟨joined, cls, sfq, curr⟩, joined', sfq', curr'⟩ := values
  have checked : sharesPositive plainKernel {} groupedWaiter := by decide +kernel
  have positive := sharesPositive_spec checked
  refine ⟨s, ran, ?_, ?_⟩
  · exact ((queue_membership _ _ _ s ran positive 1).2.1 _).mpr ⟨joined, cls, sfq, fun there => by cases curr.symm.trans there⟩
  · exact ((queue_membership _ _ _ s ran positive 0).2.1 _).mpr ⟨joined', trivial, sfq', fun there => by cases curr'.symm.trans there⟩

/-- A thread that waits becomes a realtime thread. -/
def realtimeWaiter : List Op := [.fork 0 false {}, .add 2, .schedClass 2 .realtime]

/-- A joined realtime thread is in no timeline. -/
theorem queue_membership_realtime :
    ¬ ∀ (k : Kernel) (tun : Tunables) (ops : List Op) (s : State), run k tun ops = some s →
      (∀ before after a, ops = before ++ after → run k tun before = some a →
        ∀ g, 0 < g → g < a.ngroups → 0 < (a.grp g).shares) →
      ∀ q e, e ∈ (s.sfq q).seq ↔ (s.ent e).joined ∧ (s.ent e).sfq = q ∧ (s.sfq q).curr ≠ some e := by
  intro claimed
  have result : (run plainKernel {} realtimeWaiter).map (fun s =>
      ((s.ent (.thread 2)).joined, (s.ent (.thread 2)).sfq, (s.sfq 0).curr, (s.sfq 0).seq)) =
      some (true, 0, some (.thread 0), []) := by decide +kernel
  obtain ⟨s, ran, values⟩ := Option.map_eq_some_iff.mp result
  simp only [Prod.mk.injEq] at values
  obtain ⟨joined, sfq, curr, seq⟩ := values
  have member := (claimed _ _ _ s ran (sharesPositive_spec (by decide +kernel)) 0 (.thread 2)).mpr
    ⟨joined, sfq, fun there => by cases curr.symm.trans there⟩
  rw [seq] at member
  cases member

theorem no_stranded_group_grouped :
    ∃ s, run plainKernel {} groupedWaiter = some s ∧ 0 < (s.sfq 1).nrRunning ∧ (s.ent (.group 1)).joined := by
  have result : (run plainKernel {} groupedWaiter).map (fun s => (s.ngroups, (s.sfq 1).nrRunning)) =
      some (2, 1) := by decide +kernel
  obtain ⟨s, ran, values⟩ := Option.map_eq_some_iff.mp result
  simp only [Prod.mk.injEq] at values
  obtain ⟨ngroups, running⟩ := values
  have strands := no_stranded_group _ _ _ s ran (by simp [groupedWaiter])
  have pos : 0 < (s.sfq 1).nrRunning := by
    rw [running]
    exact Nat.one_pos
  exact ⟨s, ran, pos, (strands.1 1 Nat.one_pos (by rw [ngroups]; exact Nat.one_lt_two)).2.2.1.mpr pos⟩

/-- Group `2` gets a share of `0`; a thread of its parent leaves, which then looks empty. -/
def strandingShares : List Op :=
  [.groupCreate 0 0, .groupCreate 1 0, .fork 0 false {}, .fork 0 false {}, .groupMove 2 2, .groupMove 3 1,
    .setShares 2 0, .add 2, .add 3, .schedClass 3 .realtime]

theorem no_stranded_group_zero :
    ¬ ∀ (k : Kernel) (tun : Tunables) (ops : List Op) (s : State), run k tun ops = some s →
      ∀ g, 0 < g → g < s.ngroups → ((s.ent (.group g)).joined ↔ 0 < (s.sfq g).nrRunning) := by
  intro claimed
  have result : (run plainKernel {} strandingShares).map (fun s =>
      ((s.ent (.group 1)).joined, (s.sfq 1).nrRunning, s.ngroups)) = some (false, 1, 3) := by decide +kernel
  obtain ⟨s, ran, values⟩ := Option.map_eq_some_iff.mp result
  simp only [Prod.mk.injEq] at values
  obtain ⟨apart, running, ngroups⟩ := values
  have joined := (claimed _ _ _ s ran 1 Nat.one_pos (by rw [ngroups]; decide)).mpr (by rw [running]; exact Nat.one_pos)
  rw [apart] at joined
  cases joined

end SfqSched
