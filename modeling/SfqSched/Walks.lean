import SfqSched.Micro
import SfqSched.Roster

namespace SfqSched
open State Function

namespace View
variable {v : View}

/-- The chain above an entity is in the frame of the hierarchy. -/
theorem chain_congr {s s' : State} (frame : s'.view.frame = s.view.frame) (o : Option EntId) :
    walkup s' o = walkup s o := by
  have parent : s'.view.parent = s.view.parent := congrArg Frame.parent frame
  have ngroups : s'.view.ngroups = s.view.ngroups := congrArg Frame.ngroups frame
  change climb s'.view.parent (s'.view.ngroups + 1) o = climb s.view.parent (s.view.ngroups + 1) o
  rw [parent, ngroups]

/-- The order of those that are missing from timelines does not matter. -/
theorem Core.swap {L L' : List EntId} (core : v.Core L) (same : ∀ e, e ∈ L' ↔ e ∈ L) : v.Core L' :=
  { core with curr := fun q e => by rw [core.curr, same] }

/-- A view without what only the classes of the threads see to. -/
def bones (v : View) : View :=
  { v with
    curthread := 0, idlethread := 0, initial := fun _ => false, tdState := fun _ => .inactive
    exited := fun _ => false, noLoad := fun _ => false, idleTd := fun _ => false
    nrRunning := 0, nrSysrunning := 0 }

theorem filled_bones {d : Option EntId} : v.bones.Filled d ↔ v.Filled d := Iff.rfl

/-- The core is about the bones of the view. -/
theorem core_bones {L : List EntId} : v.bones.Core L ↔ v.Core L :=
  ⟨fun core => { core with hier := { core.hier with } }, fun core => { core with hier := { core.hier with } }⟩

theorem tight_bones {d : Option EntId} : v.bones.Tight d ↔ v.Tight d :=
  ⟨fun tight => { tight with }, fun tight => { tight with }⟩

/-- On a queue with a joined entity the group that owns it is joined too. -/
theorem Tight.up {L : List EntId} (tight : v.Tight none) (core : v.Core L) {e p : EntId} (seated : v.seated e)
    (parent : v.parent e = some p) : v.seated p := by
  obtain ⟨pos, inside, rfl⟩ := core.hier.parent_some parent
  have full := ((core.accounts _).holds seated.1 seated.2).2
  exact ⟨(tight.groups _ pos inside (by simp)).mpr full, trivial⟩

/-- Above a joined entity the whole chain is joined. -/
theorem Tight.chain {L chain : List EntId} {e : EntId} (tight : v.Tight none) (core : v.Core L)
    (links : Chain v.parent (some e) chain) (seated : v.seated e) : ∀ p ∈ chain, v.seated p :=
  links.all (by rintro a ⟨⟩; exact seated) fun _ _ below up => tight.up core below up

end View

section entity
variable {C : Conds} {s s' : State} {L : List EntId} {d : Option EntId} {e : EntId} {flags : Nat}

theorem setJoined_reshare {v : View} {q : Nat} {e : EntId} (b : Bool)
    (other : ∀ se, v.groupSe (v.owner q) = some se → se ≠ e) :
    (v.reshare q).setJoined e b = (v.setJoined e b).reshare q := by
  unfold View.reshare
  simp only [View.setJoined]
  cases owner : v.groupSe (v.owner q) with
  | none => rfl
  | some se =>
    have apart := other se owner
    by_cases same : v.weight se = v.shares (v.owner q)
    · simp only [same, if_true]
    · simp only [same, if_false, View.reweigh, update_of_ne apart]
      split <;> rfl

/-- The weights `update_sfq_shares` may have refreshed beside a change of the view. -/
def View.weighed (v : View) (weight : EntId → Nat) (qweight : Nat → Nat) (rqWeight : Nat) : View :=
  { v with weight := weight, qweight := qweight, rqWeight := rqWeight }

/-- One level of a walk that queues: what it leaves behind is made up on the next level. -/
theorem enqueueEntity_inv (inv : Inv C s L d) (dangling : d = none ∨ d = some e)
    (run : enqueueEntity s (s.view.sfq e) e flags = some s') (fits : EnqueueFits C s.view e)
    (heavy : C.positive → 0 < s.view.weight e) (full : ∀ g, e = .group g → 0 < s.view.nr g) :
    Inv C s' L (seOf (s.view.sfq e)) ∧
      ∃ b weight qweight rqWeight,
        s'.view = (s.view.enqueued (s.view.sfq e) e b).weighed weight qweight rqWeight ∧
        ∀ x, weight x = if x = .group (s.view.sfq e) ∧ 0 < s.view.sfq e then s.view.shares (s.view.sfq e)
          else s.view.weight x := by
  obtain ⟨new, _⟩ := enqueueEntity_parts run
  obtain ⟨b, boost, look⟩ := enqueueEntity_view inv.core.hier run
  have inside := inv.core.hier.inside e
  have core := inv.core.enqueued new fits.pss fits.valid boost
  rw [setJoined_reshare] at look
  · refine ⟨⟨?_, fun positive => ?_, ?_⟩, ?_⟩
    · rw [look]
      exact core.reshare inside
    · rw [look]
      have tight := (inv.tight positive).enqueued (b := b) dangling inv.core new (heavy positive) (fits.away (.inl positive)) full
      exact tight.reshare core inside
    · rw [look]
      exact (inv.filled.enqueued dangling full).reshare core inside
    · obtain ⟨weight, qweight, rqWeight, same, weights⟩ := core.reshare_same inside
      exact ⟨b, weight, qweight, rqWeight, look.trans same, weights⟩
  · rintro se owner rfl
    obtain ⟨pos, own⟩ := (inv.core.hier.owner_entity inside).mp owner
    have lower := inv.core.hier.lower (s.view.sfq se)
    rw [← own] at lower
    omega

/-- One level of a walk that takes off: what it leaves behind is made up on the next level. -/
theorem dequeueEntity_inv (inv : Inv C s L d) (dangling : d = none ∨ d = some e)
    (run : dequeueEntity s (s.view.sfq e) e flags = some s') (seated : s.view.seated e)
    (empty : C.positive → ∀ g, e = .group g → s.view.nr g = 0) :
    Inv C s' L (seOf (s.view.sfq e)) ∧
      ∃ weight qweight rqWeight,
        s'.view = (s.view.dequeued (s.view.sfq e) e).weighed weight qweight rqWeight ∧
        ∀ x, weight x = if x = .group (s.view.sfq e) ∧ 0 < s.view.sfq e then s.view.shares (s.view.sfq e)
          else s.view.weight x := by
  have look := dequeueEntity_view inv.core run seated.1
  have inside := inv.core.hier.inside e
  have core := inv.core.dequeued seated.1 seated.2
  refine ⟨⟨?_, fun positive => ?_, ?_⟩, ?_⟩
  · rw [look]
    exact core.reshare inside
  · rw [look]
    exact ((inv.tight positive).dequeued dangling (empty positive)).reshare core inside
  · rw [look]
    exact (inv.filled.dequeued dangling).reshare core inside
  · obtain ⟨weight, qweight, rqWeight, same, weights⟩ := core.reshare_same inside
    exact ⟨weight, qweight, rqWeight, look.trans same, weights⟩

theorem setRunq_total (hier : s.view.Hier) (out : s.view.onRunq e = false) : ∃ s', setRunq s e flags = some s' := by
  unfold setRunq
  cases e with
  | group g => exact ⟨s, by rw [seToTd_group]⟩
  | thread t =>
    simp only [seToTd_thread hier]
    have out' : ¬((setTdState s t .runq).ent (.thread t)).onRunq = true := by
      rw [view_onRunq, setTdState_view]
      simp [out]
    split
    · exact ⟨_, if_neg out'⟩
    · exact ⟨_, rfl⟩

/-- An entity that is not joined is on no queue, so that `enqueue_entity` finds it where it has to be. -/
theorem enqueueEntity_total {q : Nat} (core : s.view.Core L) (apart : s.view.joined e = false) :
    ∃ s', enqueueEntity s q e flags = some s' := by
  have off : s.view.onSfq e = false := core.off apart
  have out : s.view.onRunq e = false := by
    by_contra there
    have joined := (core.onRunq e (by simpa using there)).1
    exact Bool.noConfusion (apart.symm.trans joined)
  obtain ⟨a, first⟩ : ∃ a, setRunq (enqueueVruntime s q e flags) e flags = some a :=
    setRunq_total (by simpa using core.hier) (by simpa using out)
  obtain ⟨⟨boosted, _, look⟩, _⟩ := setRunq_spec (by simpa using core.hier) first
  have free : ¬(a.ent e).onSfq = true := by
    rw [view_onSfq, look, enqueueVruntime_view]
    simp [View.runnable, off]
  obtain ⟨b, second⟩ : ∃ b, rawEnqueueEntity a q e = some b := ⟨_, if_neg free⟩
  refine ⟨enqueueAccount b q e, ?_⟩
  unfold enqueueEntity
  rw [if_neg (by rw [view_joined, apart]; exact Bool.false_ne_true)]
  change (setRunq (enqueueVruntime s q e flags) e flags).bind _ = _
  rw [first, Option.bind_some]
  change (rawEnqueueEntity a q e).bind _ = _
  rw [second]
  rfl

/-- Bringing shares up to date keeps the invariant. -/
theorem reshare_inv {q : Nat} (inv : Inv C s L d) (inside : q < s.view.ngroups) :
    Inv C (updateSfqShares s q) L d ∧
      ∃ weight qweight rqWeight, (updateSfqShares s q).view = s.view.weighed weight qweight rqWeight := by
  refine ⟨⟨?_, fun positive => ?_, ?_⟩, ?_⟩
  · rw [updateSfqShares_view]
    exact inv.core.reshare inside
  · rw [updateSfqShares_view]
    exact (inv.tight positive).reshare inv.core inside
  · rw [updateSfqShares_view]
    exact inv.filled.reshare inv.core inside
  · obtain ⟨weight, qweight, rqWeight, same, _⟩ := inv.core.reshare_same inside
    exact ⟨weight, qweight, rqWeight, (updateSfqShares_view ..).trans same⟩

end entity

/-- What changes no bone keeps the invariant. -/
theorem Inv.of_bones {C : Conds} {s s' : State} {L : List EntId} {d : Option EntId} (inv : Inv C s L d)
    (same : s'.view.bones = s.view.bones) : Inv C s' L d where
  core := View.core_bones.mp (same ▸ View.core_bones.mpr inv.core)
  tight positive := View.tight_bones.mp (same ▸ View.tight_bones.mpr (inv.tight positive))
  filled := View.filled_bones.mp (same ▸ View.filled_bones.mpr inv.filled)

/-- A part of an operation that keeps the hierarchy, with the entities then
current and what it did to the roster. -/
structure Reaches (C : Conds) (s s' : State) (current : List EntId) (roster : Roster) : Prop where
  path : Path C s s'
  inv : Inv C s' current none
  roster : s'.view.roster = roster
  frame : s'.view.frame = s.view.frame

namespace Reaches
variable {C : Conds} {s s' s'' : State} {L L' : List EntId} {r r' : Roster}

theorem refl (inv : Inv C s L none) : Reaches C s s L s.view.roster := ⟨.refl s, inv, rfl, rfl⟩

theorem trans (h : Reaches C s s' L r) (h' : Reaches C s' s'' L' r') : Reaches C s s'' L' r' :=
  ⟨h.path.trans h'.path, h'.inv, h'.roster, h'.frame.trans h.frame⟩

/-- A first part of the way that leaves the hierarchy alone. -/
theorem after (h : Reaches C s' s'' L r) (first : Path C s s') (frame : s'.view.frame = s.view.frame) :
    Reaches C s s'' L r := ⟨first.trans h.path, h.inv, h.roster, h.frame.trans frame⟩

end Reaches

section walks
variable {C : Conds} {s s' : State} {L : List EntId}

/-- The rest of a walk, once it has stopped queueing, brings the shares up to date. -/
theorem updateSharesWalk_reaches (inv : Inv C s L none) (chain : List EntId) :
    Reaches C s (updateSharesWalk s chain) L s.view.roster ∧
      (updateSharesWalk s chain).view.joined = s.view.joined := by
  induction chain generalizing s with
  | nil => exact ⟨.refl inv, rfl⟩
  | cons se rest ih =>
    have inside := inv.core.hier.inside se
    obtain ⟨inv', weight, qweight, rqWeight, look⟩ := reshare_inv inv inside
    obtain ⟨further, joined⟩ := ih inv'
    have roster : (updateSfqShares s (s.view.sfq se)).view.roster = s.view.roster := by rw [look]; rfl
    have frame : (updateSfqShares s (s.view.sfq se)).view.frame = s.view.frame := by rw [look]; rfl
    have first : Reaches C s (updateSfqShares s (s.view.sfq se)) L s.view.roster :=
      ⟨.flow inv (.reshare _ inside rfl), inv', roster, frame⟩
    refine ⟨roster ▸ first.trans further, joined.trans ?_⟩
    rw [look]
    rfl

/-- The walk of `pss_enqueue_thread` above the thread. `o` is the group that
has just gained an entity, if there is one. -/
theorem pssEnqueueWalk_groups {o : Option EntId} {chain : List EntId} (links : Chain s.view.parent o chain)
    (inv : Inv C s L o) (time : TimeFits C s.view)
    (full : ∀ p, o = some p → ∃ g, p = .group g ∧ 0 < g ∧ g < s.view.ngroups ∧ 0 < s.view.nr g ∧
      s.view.weight p = s.view.shares g) :
    ∃ s', pssEnqueueWalk s chain enqueueWakeup = some s' ∧ Reaches C s s' L s.view.roster ∧
      ∀ e, s.view.joined e → s'.view.joined e := by
  generalize up : s.view.parent = parent at links
  induction links generalizing s with
  | root => exact ⟨s, rfl, .refl inv, fun _ => id⟩
  | @link p rest links ih =>
    obtain ⟨g, rfl, pos, inside, some_there, weight⟩ := full p rfl
    by_cases joined : s.view.joined (.group g)
    · have run : pssEnqueueWalk s (.group g :: rest) enqueueWakeup = some (updateSharesWalk s (.group g :: rest)) := by
        unfold pssEnqueueWalk
        rw [view_joined, if_pos joined]
      have settled : Inv C s L none :=
        ⟨inv.core, fun positive => (inv.tight positive).settle (iff_of_true joined some_there),
          inv.filled.settle fun _ => some_there⟩
      obtain ⟨walk, same⟩ := updateSharesWalk_reaches settled (.group g :: rest)
      exact ⟨_, run, walk, fun e => by rw [same]; exact id⟩
    · have apart : s.view.joined (.group g) = false := by simpa using joined
      obtain ⟨s₁, step⟩ : ∃ s₁, enqueueEntity s (s.view.sfq (.group g)) (.group g) enqueueWakeup = some s₁ :=
        enqueueEntity_total inv.core apart
      have run : pssEnqueueWalk s (.group g :: rest) enqueueWakeup = pssEnqueueWalk s₁ rest enqueueWakeup := by
        conv_lhs => unfold pssEnqueueWalk
        rw [view_joined, if_neg joined, view_sfq, step]
      have fits : EnqueueFits C s.view (.group g) := {
        pss := trivial
        valid := ⟨pos, inside⟩
        away := fun which current => joined (time _ _ current which)
        weight := fun g' same => by cases same; exact weight }
      have heavy (positive : C.positive) : 0 < s.view.weight (.group g) := by
        rw [weight]
        exact (inv.tight positive).shares g pos inside
      obtain ⟨inv₁, b, w, qw, rw', look, weights⟩ :=
        enqueueEntity_inv inv (.inr rfl) step fits heavy (by rintro g' ⟨⟩; exact some_there)
      have micro : Flow C s s₁ := .enqueue _ _ step fits (by simp)
      have roster : s₁.view.roster = s.view.roster := by
        rw [look]
        simp [View.roster, View.weighed, View.enqueued, View.setJoined, View.account, View.enter, View.runnable]
      have frame : s₁.view.frame = s.view.frame := by rw [look]; rfl
      have same_curr : s₁.view.curr = s.view.curr := by rw [look]; rfl
      have grows (e : EntId) (old : s.view.joined e) : s₁.view.joined e := by
        rw [look]
        simp only [View.weighed, View.enqueued, View.setJoined, View.account, View.enter, View.runnable]
        by_cases same : e = .group g <;> simp [same, old]
      rw [← inv.core.hier.link, up] at inv₁
      have up₁ : s₁.view.parent = parent := (congrArg View.Frame.parent frame).trans up
      have full₁ (p : EntId) (at_p : parent (.group g) = some p) : ∃ g, p = .group g ∧ 0 < g ∧
          g < s₁.view.ngroups ∧ 0 < s₁.view.nr g ∧ s₁.view.weight p = s₁.view.shares g := by
        obtain ⟨pos', inside', rfl⟩ := inv.core.hier.parent_some (up ▸ at_p)
        refine ⟨_, rfl, pos', by rw [look]; exact inside', ?_, ?_⟩
        · rw [look]
          simp [View.weighed, View.enqueued, View.setJoined, View.account, View.enter, View.runnable]
        · rw [look]
          exact (weights _).trans (if_pos ⟨rfl, pos'⟩)
      obtain ⟨s', run', further, grows'⟩ :=
        ih inv₁ (fun q e current which => grows e (time q e (same_curr ▸ current) which)) full₁ up₁
      rw [roster] at further
      exact ⟨s', run.trans run', further.after (.flow inv micro) frame, fun e old => grows' e (grows e old)⟩

theorem rqRunAdd_view (s : State) (t : Tid) :
    (rqRunAdd s t).view =
      { s.view with
        nrRunning := s.view.nrRunning + 1
        nrSysrunning := if s.view.noLoad t then s.view.nrSysrunning else s.view.nrSysrunning + 1 } := by
  unfold rqRunAdd
  dsimp only
  split_ifs <;> simp_all [view_modRq]

/-- Counts of the CPU are no bones. -/
theorem rqRunAdd_quiet (s : State) (t : Tid) : Quiet s (rqRunAdd s t) := by
  have books : (rqRunAdd s t).books = s.books := by
    unfold rqRunAdd
    dsimp only
    split_ifs <;> simp [books_modRq]
  have steady : Steady s (rqRunAdd s t) := by
    unfold rqRunAdd
    dsimp only
    split
    · exact .modRq ..
    · exact Steady.trans (.modRq ..) (.modRq ..)
  constructor <;> simp [rqRunAdd_view, books, steady, View.seated, View.absolute, View.resting]

theorem update_thread {α : Type} (f : EntId → α) (t : Tid) (a : α) :
    (fun u => update f (.thread t) a (.thread u)) = update (fun u => f (.thread u)) t a := by
  funext u
  by_cases same : u = t <;> simp [same]

theorem enqueued_roster {v : View} {q : Nat} {t : Tid} {b : Bool} {w : EntId → Nat} {qw : Nat → Nat} {rw' : Nat} :
    ((v.enqueued q (.thread t) b).weighed w qw rw').roster =
      { v.roster with joined := update v.roster.joined t true, tdState := update v.roster.tdState t .runq } := by
  have state : (fun u => if t = u then .runq else v.tdState u) = update v.tdState t .runq := by
    funext u
    simp only [update_apply, eq_comm]
  simp [View.roster, View.weighed, View.enqueued, View.setJoined, View.account, View.enter, View.runnable,
    update_thread, state]

theorem rqRunAdd_roster (s : State) (t : Tid) :
    (rqRunAdd s t).view.roster =
      { s.view.roster with
        nrRunning := s.view.roster.nrRunning + 1
        nrSysrunning :=
          if s.view.roster.noLoad t then s.view.roster.nrSysrunning else s.view.roster.nrSysrunning + 1 } := by
  rw [rqRunAdd_view]
  rfl

/-- `pss_enqueue_thread` of a thread that is not joined, from the state in
which its entity is enqueued; the step to there may have begun before. -/
theorem pssEnqueueThread_after {s₀ : State} {t : Tid} {flags : Nat} {d : Option EntId} (inv : Inv C s L d)
    (inv₀ : Inv C s₀ L none) (frame : s₀.view.frame = s.view.frame)
    (time : TimeFits C s₀.view) (apart : s₀.view.joined (.thread t) = false)
    (fits : EnqueueFits C s₀.view (.thread t))
    (micro : ∀ s₁, enqueueEntity s₀ (s₀.view.sfq (.thread t)) (.thread t) flags = some s₁ → Flow C s s₁) :
    ∃ s', pssEnqueueThread s₀ t flags = some s' ∧ Reaches C s s' L (s₀.view.roster.attach t) := by
  have links := inv₀.core.hier.chain (e := .thread t) (Nat.lt_succ_self _)
  rw [show walkup s₀ (some (.thread t)) = .thread t :: _ from rfl] at links
  cases links with
  | link links =>
    obtain ⟨s₁, step⟩ : ∃ s₁, enqueueEntity s₀ (s₀.view.sfq (.thread t)) (.thread t) flags = some s₁ :=
      enqueueEntity_total inv₀.core apart
    have heavy (positive : C.positive) : 0 < s₀.view.weight (.thread t) := inv₀.core.threadWeight t fits.valid
    obtain ⟨inv₁, b, w, qw, rw', look, weights⟩ := enqueueEntity_inv inv₀ (.inl rfl) step fits heavy (by simp)
    have frame₁ : s₁.view.frame = s₀.view.frame := by rw [look]; rfl
    have up : s₁.view.parent = s₀.view.parent := congrArg View.Frame.parent frame₁
    rw [← inv₀.core.hier.link] at inv₁
    have still : TimeFits C s₁.view := by
      intro q e current which
      rw [look] at current ⊢
      simp only [View.weighed, View.enqueued, View.setJoined, View.account, View.enter, View.runnable] at current ⊢
      by_cases same : e = .thread t
      · simp [same]
      · simpa [same] using time q e current which
    have full (p : EntId) (at_p : s₀.view.parent (.thread t) = some p) : ∃ g, p = .group g ∧ 0 < g ∧
        g < s₁.view.ngroups ∧ 0 < s₁.view.nr g ∧ s₁.view.weight p = s₁.view.shares g := by
      obtain ⟨pos', inside', rfl⟩ := inv₀.core.hier.parent_some at_p
      refine ⟨_, rfl, pos', by rw [look]; exact inside', ?_, ?_⟩
      · rw [look]
        simp [View.weighed, View.enqueued, View.setJoined, View.account, View.enter, View.runnable]
      · rw [look]
        exact (weights _).trans (if_pos ⟨rfl, pos'⟩)
    obtain ⟨a, walk, further, _⟩ := pssEnqueueWalk_groups (by rw [up]; exact links) inv₁ still full
    have run : pssEnqueueThread s₀ t flags = some (rqRunAdd a t) := by
      refine Option.map_eq_some_iff.mpr ⟨a, ?_, rfl⟩
      rw [show walkup s₀ (some (.thread t)) = .thread t :: _ from rfl]
      unfold pssEnqueueWalk
      rw [view_joined, if_neg (by simp [apart]), view_sfq, step]
      exact walk
    have inv' : Inv C (rqRunAdd a t) L none := further.inv.of_bones (by rw [rqRunAdd_view]; rfl)
    refine ⟨_, run, (Path.flow inv (micro s₁ step)).trans (further.path.trans (.quiet further.inv (rqRunAdd_quiet ..))),
      inv', ?_, ?_⟩
    · rw [rqRunAdd_roster, further.roster, look, enqueued_roster]
      rfl
    · rw [rqRunAdd_view]
      exact (further.frame.trans frame₁).trans frame

end walks

end SfqSched
