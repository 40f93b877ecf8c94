import SfqSched.ShareSteps

namespace SfqSched
open State Function

namespace View
variable {v : View} {L : List EntId} {d : Option EntId} {p shares : Nat}

/-- What a new group, below `p`, adds to the hierarchy. -/
def create (v : View) (p shares : Nat) : View :=
  { v with
    ngroups := v.ngroups + 1
    parent := update v.parent (.group v.ngroups) (seOf p)
    sfq := update v.sfq (.group v.ngroups) p
    myQ := update v.myQ (.group v.ngroups) (some v.ngroups)
    initial := update v.initial (.group v.ngroups) false
    weight := update v.weight (.group v.ngroups) 0
    owner := update v.owner v.ngroups v.ngroups
    groupSe := update v.groupSe v.ngroups (some (.group v.ngroups))
    groupSfq := update v.groupSfq v.ngroups v.ngroups
    shares := update v.shares v.ngroups shares }

/-- Nothing is known of the group that comes next. -/
structure Blank (v : View) : Prop where
  joined : v.joined (.group v.ngroups) = false
  onSfq : v.onSfq (.group v.ngroups) = false
  onRunq : v.onRunq (.group v.ngroups) = false
  timeline : v.timeline v.ngroups = 0
  curr : v.curr v.ngroups = none
  nr : v.nr v.ngroups = 0
  qweight : v.qweight v.ngroups = 0

theorem Core.blank (core : v.Core L) : v.Blank := by
  have away (e : EntId) : v.sfq e ≠ v.ngroups := (core.hier.inside e).ne
  have joined : v.joined (.group v.ngroups) = false := by
    by_contra there
    have valid : (EntId.group v.ngroups).valid v.nthreads v.ngroups := core.valid _ (by simpa using there)
    exact lt_irrefl _ valid.2
  obtain ⟨m, mem, load, count⟩ := core.accounts v.ngroups
  have empty : m = ∅ := by
    refine Finset.eq_empty_of_forall_notMem fun e member => ?_
    exact away e ((mem e).mp member).2.2
  refine ⟨joined, core.off joined, ?_, ?_, ?_, ?_, ?_⟩
  · by_contra there
    have both := core.onRunq _ (by simpa using there)
    exact Bool.noConfusion (joined.symm.trans both.1)
  · refine Multiset.eq_zero_of_forall_notMem fun e member => ?_
    exact away e (core.member _ e member).2.2
  · cases current : v.curr v.ngroups with
    | none => rfl
    | some e => exact absurd ((core.curr _ e).mp current).2 (away e)
  · rw [count, empty]
    rfl
  · rw [load, empty]
    rfl

theorem Hier.create (hier : v.Hier) (inside : p < v.ngroups) : (v.create p shares).Hier where
  positive := Nat.succ_pos _
  groupSe g below := by
    by_cases new : g = v.ngroups
    · subst new
      have pos := hier.positive
      simp [View.create, seOf]
      omega
    · simpa [View.create, new] using hier.groupSe g (by simp [View.create] at below; omega)
  groupSfq g below := by
    by_cases new : g = v.ngroups
    · simp [View.create, new]
    · simpa [View.create, new] using hier.groupSfq g (by simp [View.create] at below; omega)
  owner g below := by
    by_cases new : g = v.ngroups
    · simp [View.create, new]
    · simpa [View.create, new] using hier.owner g (by simp [View.create] at below; omega)
  threadQ t := by simpa [View.create] using hier.threadQ t
  groupQ g pos below := by
    by_cases new : g = v.ngroups
    · simp [View.create, new]
    · simpa [View.create, new] using hier.groupQ g pos (by simp [View.create] at below; omega)
  lower g := by
    by_cases new : g = v.ngroups
    · simp [View.create, new]
      omega
    · simpa [View.create, new] using hier.lower g
  inside e := by
    by_cases new : e = .group v.ngroups
    · simp [View.create, new]
      omega
    · simpa [View.create, new] using Nat.lt_succ_of_lt (hier.inside e)
  link e := by
    by_cases new : e = .group v.ngroups
    · simp [View.create, new]
    · simpa [View.create, new] using hier.link e
  tdGroup t := Nat.lt_succ_of_lt (hier.tdGroup t)

/-- A new group, which no queue has as its current entity. -/
theorem Core.create (core : v.Core L) (inside : p < v.ngroups) (away : EntId.group v.ngroups ∉ L) :
    (v.create p shares).Core L := by
  have blank := core.blank
  have joins {e : EntId} (joined : v.joined e) : e ≠ .group v.ngroups := by
    rintro rfl
    exact Bool.noConfusion (blank.joined.symm.trans joined)
  have same {e : EntId} (other : e ≠ .group v.ngroups) : (v.create p shares).sfq e = v.sfq e := update_of_ne other ..
  have out (q : Nat) : EntId.group v.ngroups ∉ v.timeline q := fun member => joins (core.member q _ member).1 rfl
  exact {
    hier := core.hier.create inside
    valid := fun e joined => by
      have old := core.valid e joined
      cases e with
      | thread t => exact old
      | group g => exact ⟨old.1, Nat.lt_succ_of_lt old.2⟩
    member := fun q e member => by
      obtain ⟨joined, pss, place⟩ := core.member q e member
      exact ⟨joined, pss, (same (joins joined)).trans place⟩
    nodup := core.nodup
    onSfq := fun e => by
      by_cases new : e = .group v.ngroups
      · subst new
        exact iff_of_false (by simp [View.create, blank.onSfq]) (out _)
      · rw [same new]
        exact core.onSfq e
    covered := fun e joined pss => by
      rw [same (joins joined)]
      exact core.covered e joined pss
    curr := fun q e => by
      by_cases new : e = .group v.ngroups
      · subst new
        exact iff_of_false (fun current => away ((core.curr q _).mp current).1) (fun both => away both.1)
      · rw [same new]
        exact core.curr q e
    currPss := core.currPss
    realtime := core.realtime
    onRunq := core.onRunq
    accounts := fun q => by
      refine (core.accounts q).same (fun e => ?_) (fun e joined _ _ => update_of_ne (joins joined) ..) rfl rfl
      constructor
      · rintro ⟨joined, pss, place⟩
        exact ⟨joined, pss, (same (joins joined)).symm.trans place⟩
      · rintro ⟨joined, pss, place⟩
        exact ⟨joined, pss, (same (joins joined)).trans place⟩
    rqWeight := core.rqWeight
    threadWeight := fun t below => by
      have old := core.threadWeight t below
      simpa [View.create] using old }

theorem Tight.create (tight : v.Tight d) (core : v.Core L) (pos : 0 < shares) : (v.create p shares).Tight d where
  shares g above below := by
    by_cases new : g = v.ngroups
    · simpa [View.create, new] using pos
    · simpa [View.create, new] using tight.shares g above (by simp [View.create] at below; omega)
  weight e joined pss := by
    have old := tight.weight e joined pss
    have other : e ≠ .group v.ngroups := by
      rintro rfl
      exact Bool.noConfusion (core.blank.joined.symm.trans joined)
    simpa [View.create, other] using old
  groups g above below other := by
    by_cases new : g = v.ngroups
    · subst new
      exact iff_of_false (by simp [View.create, core.blank.joined]) (by simp [View.create, core.blank.nr])
    · exact tight.groups g above (by simp [View.create] at below; omega) other
  apart := tight.apart

theorem Filled.create (filled : v.Filled d) (core : v.Core L) : (v.create p shares).Filled d := by
  intro g above below other joined
  by_cases new : g = v.ngroups
  · subst new
    simp [View.create, core.blank.joined] at joined
  · exact filled g above (by simp [View.create] at below; omega) other joined

end View

section create
variable {C : Conds} {s s' : State} {L : List EntId} {t : Tid} {p shares : Nat}

/-- The queue that the group entity of `p` owns belongs to `p`. -/
theorem ownedBy_self (core : s.view.Core L) (inside : p < s.view.ngroups) : (match seOf p with
    | none => 0
    | some x => ((s.ent x).myQ).getD 0) = p := by
  by_cases root : p = 0
  · subst root
    rfl
  · have owns : (s.ent (.group p)).myQ = some p := core.hier.groupQ p (Nat.pos_of_ne_zero root) inside
    simp only [seOf, root, if_false, owns, Option.getD_some]

theorem schedGroupCreate_view (core : s.view.Core L) (inside : p < s.view.ngroups) :
    (schedGroupCreate s p shares).view = s.view.create p (allocShares shares) := by
  have blank := core.blank
  have other : p ≠ s.ngroups := inside.ne
  have se : (s.grp p).se = seOf p := core.hier.groupSe p inside
  have base : ({ s with ngroups := s.ngroups + 1 } : State).view = { s.view with ngroups := s.view.ngroups + 1 } := rfl
  have grp : ((({ s with ngroups := s.ngroups + 1 } : State).modGrp s.ngroups fun _ => { parent := some p }).grp p).se =
      seOf p := by
    simp only [State.modGrp, update_of_ne other]
    exact se
  have upper := ownedBy_self core inside
  have children (a : State) : (a.modGrp p fun sg => { sg with children := sg.children ++ [s.ngroups] }).view = a.view := by
    rw [view_modGrp]
    simp
  have still {α β : Type} [DecidableEq α] {f : α → β} {a : α} {b : β} (same : f a = b) : update f a b = f := by
    rw [← same, update_eq_self]
  unfold schedGroupCreate pssAllocSchedGroup
  dsimp only
  rw [grp, children, view_modEnt, view_modSfq, view_modGrp, view_modGrp, base]
  ext1
  case sfq => exact congrArg (update s.view.sfq (.group s.ngroups)) upper
  case joined => exact still blank.joined
  case onSfq => exact still blank.onSfq
  case onRunq => exact still blank.onRunq
  case timeline => exact still blank.timeline
  case curr => exact still blank.curr
  case nr => exact still blank.nr
  case qweight => exact still blank.qweight
  case groupSe => exact update_idem ..
  case groupSfq => exact update_idem ..
  case shares => exact update_idem ..
  all_goals rfl

theorem allocShares_pos (shares : Nat) : 0 < allocShares shares := by
  unfold allocShares
  split
  · decide
  · exact clampShares_pos shares

/-- Chains are the same where the parents on them are. -/
theorem currentOn_kept {cpu : Option Tid} (hier : s.view.Hier) (hier' : s'.view.Hier)
    (cls : ∀ t, cpu = some t → s'.view.cls t = s.view.cls t)
    (parent : ∀ e ∈ currentOn s cpu, s'.view.parent e = s.view.parent e) : currentOn s' cpu = currentOn s cpu := by
  cases cpu with
  | none => rfl
  | some t =>
    simp only [currentOn, cpuChain, cls t rfl] at parent ⊢
    split
    · rename_i pss
      rw [if_pos pss] at parent
      exact walkup_same hier hier' parent
    · rfl

/-- The groups above a thread are known. -/
theorem currentOn_known (hier : s.view.Hier) (cpu : Option Tid) : EntId.group s.view.ngroups ∉ currentOn s cpu := by
  cases cpu with
  | none => simp [currentOn]
  | some t =>
    simp only [currentOn, cpuChain]
    split
    · have links := hier.chain (e := .thread t) (Nat.lt_succ_self _)
      have known := links.all (p := fun e => e ≠ .group s.view.ngroups) (by rintro a ⟨⟩ ⟨⟩) fun a b _ up => by
        obtain ⟨_, below, rfl⟩ := hier.parent_some up
        intro same
        exact below.ne (EntId.group.inj same)
      exact fun member => known _ member rfl
    · simp

theorem schedGroupCreate_reached (stands : Stands C s (some s.curthread)) (inside : p < s.view.ngroups) :
    Reached C s (schedGroupCreate s p shares) := by
  have core := stands.inv.core
  have away := currentOn_known core.hier (some s.curthread)
  have view : (schedGroupCreate s p shares).view = s.view.create p (allocShares shares) :=
    schedGroupCreate_view core inside
  have inv : Inv C (schedGroupCreate s p shares) (currentOn s (some s.curthread)) none := by
    refine ⟨?_, fun positive => ?_, ?_⟩
    · rw [view]
      exact core.create inside away
    · rw [view]
      exact (stands.inv.tight positive).create core (allocShares_pos shares)
    · rw [view]
      exact stands.inv.filled.create core
  have current : (schedGroupCreate s p shares).curthread = s.curthread := congrArg View.curthread view
  have chain : currentOn (schedGroupCreate s p shares) (some s.curthread) = currentOn s (some s.curthread) := by
    refine currentOn_kept core.hier inv.core.hier (fun u _ => ?_) fun e member => ?_
    · rw [view]
      rfl
    · rw [view]
      refine update_of_ne ?_ ..
      rintro rfl
      exact away member
  refine ⟨.one stands.inv (.create p shares rfl inside fun q there => away ((core.curr q _).mp there).1), ?_, ?_⟩
  · rw [current, chain]
    exact inv
  · rw [current, view]
    exact stands.roster

end create
end SfqSched
