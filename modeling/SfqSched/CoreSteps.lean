import SfqSched.PssView

namespace SfqSched
namespace View
open Function

/-- `enqueue_entity` but for the shares it refreshes. -/
def enqueued (v : View) (q : Nat) (e : EntId) (boosted : Bool) : View :=
  (((v.runnable e boosted).enter q e).account q e).setJoined e true

/-- `dequeue_entity` but for the shares it refreshes. -/
def dequeued (v : View) (q : Nat) (e : EntId) : View :=
  (((v.unboosted e).withdraw q e).unaccount q e).setJoined e false

def putBack (v : View) (q : Nat) (e : EntId) (boosted : Bool) : View :=
  ((v.runnable e boosted).enter q e).setCurr q none

def activated (v : View) (q : Nat) (e : EntId) : View :=
  ((v.unboosted e).withdraw q e).setCurr q (some e)

section accounts
variable {v v' : View} {q q' : Nat} {e : EntId}

/-- An entity joins, and is counted. -/
theorem Accounted.enters (h : v.Accounted q) (new : v.joined e = false) (pss : e.pss v.cls)
    (joined : v'.joined = update v.joined e true) (sfq : v'.sfq = v.sfq) (cls : v'.cls = v.cls)
    (weight : v'.weight = v.weight)
    (qweight : v'.qweight = update v.qweight (v.sfq e) (v.qweight (v.sfq e) + v.weight e))
    (nr : v'.nr = update v.nr (v.sfq e) (v.nr (v.sfq e) + 1)) : v'.Accounted q := by
  obtain ⟨m, mem, load, count⟩ := h
  have fresh : e ∉ m := by simp [mem, new]
  by_cases here : v.sfq e = q
  · refine ⟨insert e m, fun x => ?_, ?_, ?_⟩
    · by_cases same : x = e
      · subst same
        simp [joined, sfq, cls, here, pss]
      · simp [same, mem, joined, sfq, cls]
    · rw [Finset.sum_insert fresh, weight, qweight, here, update_self, load, Nat.add_comm]
    · rw [Finset.card_insert_of_notMem fresh, nr, here, update_self, count]
  · refine ⟨m, fun x => ?_, ?_, ?_⟩
    · by_cases same : x = e
      · subst same
        simp [fresh, sfq, here]
      · simp [same, mem, joined, sfq, cls]
    · rw [weight, qweight, update_of_ne (Ne.symm here), load]
    · rw [nr, update_of_ne (Ne.symm here), count]

/-- An entity leaves, and is no longer counted. -/
theorem Accounted.leaves (h : v.Accounted q) (old : v.joined e) (pss : e.pss v.cls)
    (joined : v'.joined = update v.joined e false) (sfq : v'.sfq = v.sfq) (cls : v'.cls = v.cls)
    (weight : v'.weight = v.weight)
    (qweight : v'.qweight = update v.qweight (v.sfq e) (v.qweight (v.sfq e) - v.weight e))
    (nr : v'.nr = update v.nr (v.sfq e) (v.nr (v.sfq e) - 1)) : v'.Accounted q := by
  obtain ⟨m, mem, load, count⟩ := h
  by_cases here : v.sfq e = q
  · have inside : e ∈ m := (mem e).mpr ⟨old, pss, here⟩
    refine ⟨m.erase e, fun x => ?_, ?_, ?_⟩
    · by_cases same : x = e
      · subst same
        simp [joined]
      · simp [same, mem, joined, sfq, cls]
    · have total := Finset.sum_erase_add m v.weight inside
      rw [weight, qweight, here, update_self, load]
      omega
    · rw [Finset.card_erase_of_mem inside, nr, here, update_self, count]
  · have outside : e ∉ m := fun inside => here ((mem e).mp inside).2.2
    refine ⟨m, fun x => ?_, ?_, ?_⟩
    · by_cases same : x = e
      · subst same
        simp [outside, joined]
      · simp [same, mem, joined, sfq, cls]
    · rw [weight, qweight, update_of_ne (Ne.symm here), load]
    · rw [nr, update_of_ne (Ne.symm here), count]

/-- Where the same entities are joined with the same weights, the same counts are right. -/
theorem Accounted.same (h : v.Accounted q)
    (members : ∀ x, (v'.joined x ∧ x.pss v'.cls ∧ v'.sfq x = q ↔ v.joined x ∧ x.pss v.cls ∧ v.sfq x = q))
    (weight : ∀ x, v.joined x → x.pss v.cls → v.sfq x = q → v'.weight x = v.weight x)
    (qweight : v'.qweight q = v.qweight q) (nr : v'.nr q = v.nr q) : v'.Accounted q := by
  obtain ⟨m, mem, load, count⟩ := h
  refine ⟨m, fun x => (mem x).trans (members x).symm, ?_, nr.trans count⟩
  rw [qweight, load]
  refine Finset.sum_congr rfl fun x inside => ?_
  obtain ⟨joined, pss, place⟩ := (mem x).mp inside
  exact (weight x joined pss place).symm

/-- A joined entity is part of what its queue weighs and counts. -/
theorem Accounted.holds (h : v.Accounted (v.sfq e)) (joined : v.joined e) (pss : e.pss v.cls) :
    v.weight e ≤ v.qweight (v.sfq e) ∧ 0 < v.nr (v.sfq e) := by
  obtain ⟨m, mem, load, count⟩ := h
  have inside : e ∈ m := (mem e).mpr ⟨joined, pss, rfl⟩
  refine ⟨?_, ?_⟩
  · rw [load, ← Finset.sum_erase_add m v.weight inside]
    exact Nat.le_add_left ..
  · rw [count]
    exact Finset.card_pos.mpr ⟨e, inside⟩

/-- The weight of a joined entity is exchanged, and so is its part of the load. -/
theorem Accounted.reweighs (h : v.Accounted q) (old : v.joined e) (pss : e.pss v.cls) (w : Nat)
    (joined : v'.joined = v.joined) (sfq : v'.sfq = v.sfq) (cls : v'.cls = v.cls)
    (weight : v'.weight = update v.weight e w)
    (qweight : v'.qweight = update v.qweight (v.sfq e) (v.qweight (v.sfq e) - v.weight e + w))
    (nr : v'.nr = update v.nr (v.sfq e) (v.nr (v.sfq e) - 1 + 1)) : v'.Accounted q := by
  by_cases here : v.sfq e = q
  · subst here
    have some_there := (h.holds old pss).2
    obtain ⟨m, mem, load, count⟩ := h
    have inside : e ∈ m := (mem e).mpr ⟨old, pss, rfl⟩
    refine ⟨m, fun x => by simp [mem, joined, sfq, cls], ?_, ?_⟩
    · have total := Finset.sum_erase_add m v.weight inside
      have total' := Finset.sum_erase_add m v'.weight inside
      have others : ∑ x ∈ m.erase e, v'.weight x = ∑ x ∈ m.erase e, v.weight x :=
        Finset.sum_congr rfl fun x other => by rw [weight, update_of_ne (Finset.ne_of_mem_erase other)]
      have own : v'.weight e = w := by rw [weight, update_self]
      rw [qweight, update_self, load]
      omega
    · rw [nr, update_self]
      omega
  · refine h.same (by simp [joined, sfq, cls]) ?_ ?_ ?_
    · rintro x _ _ place
      rw [weight, update_of_ne]
      rintro rfl
      exact here place
    · rw [qweight, update_of_ne (Ne.symm here)]
    · rw [nr, update_of_ne (Ne.symm here)]

end accounts

section core
variable {v : View} {L : List EntId} {e : EntId} {b : Bool}

/-- An entity that is not joined is in no timeline. -/
theorem Core.off (core : v.Core L) (apart : v.joined e = false) : v.onSfq e = false := by
  by_contra there
  have member := (core.onSfq e).mp (by simpa using there)
  simp [(core.member _ _ member).1] at apart

theorem Core.out (core : v.Core L) (off : v.onSfq e = false) (q : Nat) : e ∉ v.timeline q := by
  intro member
  obtain ⟨_, _, rfl⟩ := core.member q e member
  simp [(core.onSfq e).mpr member] at off

/-- An entity that is queued keeps the core. -/
theorem Core.enqueued (core : v.Core L) (new : v.joined e = false) (pss : e.pss v.cls)
    (valid : e.valid v.nthreads v.ngroups) (boost : b → ∃ t, e = .thread t) :
    (v.enqueued (v.sfq e) e b).Core L where
  hier := { core.hier with }
  valid x joined := by
    by_cases same : x = e
    · exact same ▸ valid
    · exact core.valid x (by simpa [View.enqueued, setJoined, account, enter, runnable, same] using joined)
  member q x member := by
    have out := core.out (core.off new) q
    have old := core.member q x
    dsimp only [View.enqueued, runnable, enter, account, setJoined] at *
    grind [update_apply]
  nodup q := by
    by_cases here : q = v.sfq e
    · subst here
      simpa [View.enqueued, runnable, enter, account, setJoined] using
        ⟨core.out (core.off new) (v.sfq e), core.nodup (v.sfq e)⟩
    · simpa [View.enqueued, runnable, enter, account, setJoined, here] using core.nodup q
  onSfq x := by
    have old := core.onSfq x
    dsimp only [View.enqueued, runnable, enter, account, setJoined] at *
    grind [update_apply]
  covered x := by
    have old := core.covered x
    dsimp only [View.enqueued, runnable, enter, account, setJoined] at *
    grind [update_apply]
  curr := core.curr
  currPss := core.currPss
  realtime t := by
    have old := core.realtime t
    dsimp only [View.enqueued, runnable, enter, account, setJoined] at *
    grind [update_apply]
  onRunq x := by
    have old := core.onRunq x
    dsimp only [View.enqueued, runnable, enter, account, setJoined] at *
    grind [update_apply]
  accounts q := (core.accounts q).enters new pss rfl rfl rfl rfl rfl rfl
  rqWeight := by
    have old := core.rqWeight
    have top := core.hier.parent_none (e := e)
    dsimp only [View.enqueued, runnable, enter, account, setJoined] at *
    grind [update_apply]
  threadWeight := core.threadWeight

/-- An entity that leaves keeps the core. -/
theorem Core.dequeued (core : v.Core L) (old : v.joined e) (pss : e.pss v.cls) :
    (v.dequeued (v.sfq e) e).Core L where
  hier := { core.hier with }
  valid x joined := by
    have old := core.valid x
    dsimp only [View.dequeued, unboosted, withdraw, unaccount, setJoined] at *
    grind [update_apply]
  member q x member := by
    have old := core.member q x
    have left := Multiset.Nodup.mem_erase_iff (core.nodup q) (a := x) (b := e)
    dsimp only [View.dequeued, unboosted, withdraw, unaccount, setJoined] at *
    grind [update_apply]
  nodup q := by
    by_cases here : q = v.sfq e
    · subst here
      simpa [View.dequeued, unboosted, withdraw, unaccount, setJoined] using (core.nodup (v.sfq e)).erase e
    · simpa [View.dequeued, unboosted, withdraw, unaccount, setJoined, here] using core.nodup q
  onSfq x := by
    have old := core.onSfq x
    have left := Multiset.Nodup.mem_erase_iff (core.nodup (v.sfq e)) (a := x) (b := e)
    dsimp only [View.dequeued, unboosted, withdraw, unaccount, setJoined] at *
    grind [update_apply]
  covered x := by
    have old := core.covered x
    have left := Multiset.Nodup.mem_erase_iff (core.nodup (v.sfq e)) (a := x) (b := e)
    dsimp only [View.dequeued, unboosted, withdraw, unaccount, setJoined] at *
    grind [update_apply]
  curr := core.curr
  currPss := core.currPss
  realtime t := by
    have old := core.realtime t
    dsimp only [View.dequeued, unboosted, withdraw, unaccount, setJoined] at *
    grind [update_apply]
  onRunq x := by
    have old := core.onRunq x
    dsimp only [View.dequeued, unboosted, withdraw, unaccount, setJoined] at *
    grind [update_apply]
  accounts q := (core.accounts q).leaves old pss rfl rfl rfl rfl rfl rfl
  rqWeight := by
    have old := core.rqWeight
    have top := core.hier.parent_none (e := e)
    dsimp only [View.dequeued, unboosted, withdraw, unaccount, setJoined] at *
    grind [update_apply]
  threadWeight := core.threadWeight

/-- The one entity that was missing from its timeline is back. -/
theorem Core.putBack (core : v.Core (e :: L)) (others : e ∉ L) (joined : v.joined e) (off : v.onSfq e = false)
    (pss : e.pss v.cls) (boost : b → ∃ t, e = .thread t) : (v.putBack (v.sfq e) e b).Core L where
  hier := { core.hier with }
  valid := core.valid
  member q x member := by
    have old := core.member q x
    dsimp only [View.putBack, runnable, enter, setCurr] at *
    grind [update_apply]
  nodup q := by
    by_cases here : q = v.sfq e
    · subst here
      simpa [View.putBack, runnable, enter, setCurr] using ⟨core.out off (v.sfq e), core.nodup (v.sfq e)⟩
    · simpa [View.putBack, runnable, enter, setCurr, here] using core.nodup q
  onSfq x := by
    have old := core.onSfq x
    dsimp only [View.putBack, runnable, enter, setCurr] at *
    grind [update_apply]
  covered x := by
    have old := core.covered x
    have current := core.curr (v.sfq e) x
    have current' := core.curr (v.sfq e) e
    dsimp only [View.putBack, runnable, enter, setCurr] at *
    grind [update_apply]
  curr q x := by
    have current := core.curr q x
    have current' := core.curr q e
    dsimp only [View.putBack, runnable, enter, setCurr] at *
    grind [update_apply]
  currPss q x := by
    have old := core.currPss q x
    dsimp only [View.putBack, runnable, enter, setCurr] at *
    grind [update_apply]
  realtime t := by
    have old := core.realtime t
    dsimp only [View.putBack, runnable, enter, setCurr] at *
    grind [update_apply]
  onRunq x := by
    have old := core.onRunq x
    dsimp only [View.putBack, runnable, enter, setCurr] at *
    grind [update_apply]
  accounts := core.accounts
  rqWeight := core.rqWeight
  threadWeight := core.threadWeight

/-- An entity that left its queue is no longer missed. -/
theorem Core.released (core : v.Core (e :: L)) (others : e ∉ L) (apart : v.joined e = false) :
    (v.setCurr (v.sfq e) none).Core L where
  hier := { core.hier with }
  valid := core.valid
  member := core.member
  nodup := core.nodup
  onSfq := core.onSfq
  covered x := by
    have old := core.covered x
    have current := core.curr (v.sfq e) x
    have current' := core.curr (v.sfq e) e
    dsimp only [setCurr] at *
    grind [update_apply]
  curr q x := by
    have current := core.curr q x
    have current' := core.curr q e
    dsimp only [setCurr] at *
    grind [update_apply]
  currPss q x := by
    have old := core.currPss q x
    dsimp only [setCurr] at *
    grind [update_apply]
  realtime := core.realtime
  onRunq := core.onRunq
  accounts := core.accounts
  rqWeight := core.rqWeight
  threadWeight := core.threadWeight

/-- The entity that gets the CPU is from now on missing from its timeline. -/
theorem Core.activated (core : v.Core L) (pss : e.pss v.cls) (vacant : v.curr (v.sfq e) = none) :
    (v.activated (v.sfq e) e).Core (e :: L) where
  hier := { core.hier with }
  valid := core.valid
  member q x member := by
    have old := core.member q x
    have left := Multiset.Nodup.mem_erase_iff (core.nodup q) (a := x) (b := e)
    dsimp only [View.activated, unboosted, withdraw, setCurr] at *
    grind [update_apply]
  nodup q := by
    by_cases here : q = v.sfq e
    · subst here
      simpa [View.activated, unboosted, withdraw, setCurr] using (core.nodup (v.sfq e)).erase e
    · simpa [View.activated, unboosted, withdraw, setCurr, here] using core.nodup q
  onSfq x := by
    have old := core.onSfq x
    have left := Multiset.Nodup.mem_erase_iff (core.nodup (v.sfq e)) (a := x) (b := e)
    dsimp only [View.activated, unboosted, withdraw, setCurr] at *
    grind [update_apply]
  covered x := by
    have old := core.covered x
    have left := Multiset.Nodup.mem_erase_iff (core.nodup (v.sfq e)) (a := x) (b := e)
    dsimp only [View.activated, unboosted, withdraw, setCurr] at *
    grind [update_apply]
  curr q x := by
    have current := core.curr q x
    dsimp only [View.activated, unboosted, withdraw, setCurr] at *
    grind [update_apply]
  currPss q x := by
    have old := core.currPss q x
    dsimp only [View.activated, unboosted, withdraw, setCurr] at *
    grind [update_apply]
  realtime t := by
    have old := core.realtime t
    dsimp only [View.activated, unboosted, withdraw, setCurr] at *
    grind [update_apply]
  onRunq x := by
    have old := core.onRunq x
    dsimp only [View.activated, unboosted, withdraw, setCurr] at *
    grind [update_apply]
  accounts := core.accounts
  rqWeight := core.rqWeight
  threadWeight := core.threadWeight

/-- A group's weight may be exchanged at any time. -/
theorem Core.reweigh {g : Nat} (core : v.Core L) (w : Nat) : (v.reweigh (.group g) w).Core L := by
  unfold View.reweigh
  split
  · rename_i joined
    exact {
      core with
      hier := { core.hier with }
      accounts := fun q => (core.accounts q).reweighs joined (EntId.pss_group ..) w rfl rfl rfl rfl rfl rfl
      rqWeight := by
        have old := core.rqWeight
        have top := core.hier.parent_none (e := .group g)
        dsimp only
        grind [update_apply]
      threadWeight := fun t inside => by simpa using core.threadWeight t inside }
  · rename_i apart
    exact {
      core with
      hier := { core.hier with }
      accounts := fun q => (core.accounts q).same (fun x => Iff.rfl) (by
        rintro x joined _ _
        exact update_of_ne (by rintro rfl; exact apart joined) ..) rfl rfl
      threadWeight := fun t inside => by simpa using core.threadWeight t inside }

/-- The owner of a queue takes its shares as its weight, whether or not it had them. -/
theorem Core.reshare_eq {q : Nat} (core : v.Core L) (inside : q < v.ngroups) (pos : 0 < q) :
    v.reshare q = v.reweigh (.group q) (v.shares q) := by
  have entity := (core.hier.owner_entity inside).mpr ⟨pos, rfl⟩
  have own := core.hier.owner q inside
  unfold View.reshare
  rw [entity, own]
  dsimp only
  split
  · rename_i same
    have stays : update v.weight (.group q) (v.shares q) = v.weight := by rw [← same, update_eq_self]
    unfold View.reweigh
    split
    · rename_i joined
      obtain ⟨light, some_there⟩ := (core.accounts _).holds joined (EntId.pss_group ..)
      have top := core.hier.parent_none (e := .group q)
      have load : v.qweight (v.sfq (.group q)) - v.weight (.group q) + v.shares q = v.qweight (v.sfq (.group q)) := by
        omega
      have count : v.nr (v.sfq (.group q)) - 1 + 1 = v.nr (v.sfq (.group q)) := by omega
      have rq : v.parent (.group q) = none → v.rqWeight - v.weight (.group q) + v.shares q = v.rqWeight := by
        intro at_top
        have total := core.rqWeight
        rw [← top.mp at_top] at total
        omega
      have rq' : (if v.parent (.group q) = none then v.rqWeight - v.weight (.group q) + v.shares q
          else v.rqWeight) = v.rqWeight := by
        split
        · exact rq ‹_›
        · rfl
      simp only [stays, load, count, rq', update_eq_self]
    · simp only [stays]
  · rfl

/-- The root queue has no entity to be weighed. -/
theorem Core.reshare_root (core : v.Core L) : v.reshare 0 = v := by
  have owner := core.hier.owner 0 core.hier.positive
  have none_there := core.hier.groupSe 0 core.hier.positive
  unfold View.reshare
  rw [owner, none_there]
  rfl

theorem Core.reshare {q : Nat} (core : v.Core L) (inside : q < v.ngroups) : (v.reshare q).Core L := by
  rcases Nat.eq_zero_or_pos q with rfl | pos
  · exact core.reshare_root.symm ▸ core
  · rw [core.reshare_eq inside pos]
    exact core.reweigh _

/-- What `update_sfq_shares` leaves alone. -/
theorem Core.reshare_same {q : Nat} (core : v.Core L) (inside : q < v.ngroups) :
    ∃ weight qweight rqWeight, v.reshare q =
      { v with weight := weight, qweight := qweight, rqWeight := rqWeight } ∧
      (∀ e, weight e = if e = .group q ∧ 0 < q then v.shares q else v.weight e) := by
  rcases Nat.eq_zero_or_pos q with rfl | pos
  · exact ⟨v.weight, v.qweight, v.rqWeight, core.reshare_root, by simp⟩
  · rw [core.reshare_eq inside pos]
    unfold View.reweigh
    split
    · rename_i joined
      have some_there := ((core.accounts _).holds joined (EntId.pss_group ..)).2
      have count : v.nr (v.sfq (.group q)) - 1 + 1 = v.nr (v.sfq (.group q)) := by omega
      rw [count, update_eq_self]
      exact ⟨update v.weight (.group q) (v.shares q), _, _, rfl, by simp [update_apply, pos]⟩
    · exact ⟨update v.weight (.group q) (v.shares q), _, _, rfl, by simp [update_apply, pos]⟩

end core

section tight
variable {v : View} {L : List EntId} {e : EntId} {d : Option EntId} {b : Bool}

/-- A queue that gets its first entity may leave the entity above it behind for a moment. -/
theorem Tight.enqueued (tight : v.Tight d) (dangling : d = none ∨ d = some e) (core : v.Core L)
    (new : v.joined e = false) (weight : 0 < v.weight e) (away : v.curr (v.sfq e) ≠ some e)
    (full : ∀ g, e = .group g → 0 < v.nr g) : (v.enqueued (v.sfq e) e b).Tight (seOf (v.sfq e)) where
  shares := tight.shares
  weight x joined pss := by
    have old := tight.weight x
    dsimp only [View.enqueued, runnable, enter, account, setJoined] at *
    grind [update_apply]
  groups g pos inside other := by
    have old := tight.groups g pos inside
    have here : v.sfq e ≠ g := by
      rintro rfl
      exact other (by simp [seOf]; omega)
    by_cases same : EntId.group g = e
    · subst same
      simpa [View.enqueued, runnable, enter, account, setJoined, Ne.symm here] using full g rfl
    · have apart : some (EntId.group g) ≠ d := by
        rcases dangling with rfl | rfl <;> simp [same]
      simpa [View.enqueued, runnable, enter, account, setJoined, same, Ne.symm here] using old apart
  apart q x current := by
    have old := tight.apart q x current
    have place := ((core.curr q x).mp current).2
    dsimp only [View.enqueued, runnable, enter, account, setJoined] at *
    grind [update_apply]

/-- A queue that loses its last entity may leave the entity above it behind for a moment. -/
theorem Tight.dequeued (tight : v.Tight d) (dangling : d = none ∨ d = some e)
    (empty : ∀ g, e = .group g → v.nr g = 0) : (v.dequeued (v.sfq e) e).Tight (seOf (v.sfq e)) where
  shares := tight.shares
  weight x joined pss := by
    have old := tight.weight x
    dsimp only [View.dequeued, unboosted, withdraw, unaccount, setJoined] at *
    grind [update_apply]
  groups g pos inside other := by
    have old := tight.groups g pos inside
    have here : v.sfq e ≠ g := by
      rintro rfl
      exact other (by simp [seOf]; omega)
    by_cases same : EntId.group g = e
    · subst same
      simpa [View.dequeued, unboosted, withdraw, unaccount, setJoined, Ne.symm here] using empty g rfl
    · have apart : some (EntId.group g) ≠ d := by
        rcases dangling with rfl | rfl <;> simp [same]
      simpa [View.dequeued, unboosted, withdraw, unaccount, setJoined, same, Ne.symm here] using old apart
  apart q x current := by
    have old := tight.apart q x current
    dsimp only [View.dequeued, unboosted, withdraw, unaccount, setJoined] at *
    grind [update_apply]

theorem Tight.putBack (tight : v.Tight d) (core : v.Core L) :
    (v.putBack (v.sfq e) e b).Tight d where
  shares := tight.shares
  weight := tight.weight
  groups := tight.groups
  apart q x current := by
    have old := tight.apart q x
    have place := core.curr q x
    dsimp only [View.putBack, runnable, enter, setCurr] at *
    grind [update_apply]

theorem Tight.released {q : Nat} (tight : v.Tight d) : (v.setCurr q none).Tight d where
  shares := tight.shares
  weight := tight.weight
  groups := tight.groups
  apart q' x current := by
    have old := tight.apart q' x
    dsimp only [setCurr] at *
    grind [update_apply]

theorem Tight.activated (tight : v.Tight d) : (v.activated (v.sfq e) e).Tight d where
  shares := tight.shares
  weight := tight.weight
  groups := tight.groups
  apart q x current := by
    have old := tight.apart q x
    dsimp only [View.activated, unboosted, withdraw, setCurr] at *
    grind [update_apply]

/-- The weight of a group is brought to its share again. -/
theorem Tight.reshare {q : Nat} (tight : v.Tight d) (core : v.Core L) (inside : q < v.ngroups) :
    (v.reshare q).Tight d := by
  obtain ⟨weight, qweight, rqWeight, same, heavy⟩ := core.reshare_same inside
  rw [same]
  refine { tight with weight := fun x joined pss => ?_ }
  dsimp only
  rw [heavy]
  split
  · rename_i owner
    exact tight.shares q owner.2 inside
  · exact tight.weight x joined pss

/-- A group that turns out to be joined exactly if its queue has entities does not dangle. -/
theorem Tight.settle {g : Nat} (tight : v.Tight (some (.group g))) (fits : v.joined (.group g) ↔ 0 < v.nr g) :
    v.Tight none where
  shares := tight.shares
  weight := tight.weight
  groups g' pos inside _ := by
    by_cases same : g' = g
    · exact same ▸ fits
    · exact tight.groups g' pos inside (by simpa using same)
  apart := tight.apart

end tight

section filled
variable {v : View} {L : List EntId} {e : EntId} {d : Option EntId} {b : Bool}

/-- After an entity has joined, the one above its queue may lag behind. -/
theorem Filled.enqueued (filled : v.Filled d) (dangling : d = none ∨ d = some e)
    (full : ∀ g, e = .group g → 0 < v.nr g) : (v.enqueued (v.sfq e) e b).Filled (seOf (v.sfq e)) := by
  intro g pos inside other joined
  have here : v.sfq e ≠ g := by
    rintro rfl
    exact other (by simp [seOf]; omega)
  by_cases same : EntId.group g = e
  · subst same
    simpa [View.enqueued, runnable, enter, account, setJoined, Ne.symm here] using full g rfl
  · have apart : some (EntId.group g) ≠ d := by
      rcases dangling with rfl | rfl <;> simp [same]
    have before : v.joined (.group g) := by simpa [View.enqueued, runnable, enter, account, setJoined, same] using joined
    simpa [View.enqueued, runnable, enter, account, setJoined, Ne.symm here] using filled g pos inside apart before

theorem Filled.dequeued (filled : v.Filled d) (dangling : d = none ∨ d = some e) :
    (v.dequeued (v.sfq e) e).Filled (seOf (v.sfq e)) := by
  intro g pos inside other joined
  have here : v.sfq e ≠ g := by
    rintro rfl
    exact other (by simp [seOf]; omega)
  by_cases same : EntId.group g = e
  · subst same
    simp [View.dequeued, unboosted, withdraw, unaccount, setJoined] at joined
  · have apart : some (EntId.group g) ≠ d := by
      rcases dangling with rfl | rfl <;> simp [same]
    have before : v.joined (.group g) := by
      simpa [View.dequeued, unboosted, withdraw, unaccount, setJoined, same] using joined
    simpa [View.dequeued, unboosted, withdraw, unaccount, setJoined, Ne.symm here] using filled g pos inside apart before

theorem Filled.reshare {q : Nat} (filled : v.Filled d) (core : v.Core L) (inside : q < v.ngroups) :
    (v.reshare q).Filled d := by
  obtain ⟨weight, qweight, rqWeight, same, _⟩ := core.reshare_same inside
  rw [same]
  exact filled

/-- The lag is made up when the entity above has something in its queue. -/
theorem Filled.settle {g : Nat} (filled : v.Filled (some (.group g))) (fits : v.joined (.group g) → 0 < v.nr g) :
    v.Filled none := by
  intro g' pos inside _ joined
  by_cases same : g' = g
  · subst same
    exact fits joined
  · exact filled g' pos inside (by simpa using same) joined

/-- What lags nowhere may be said to lag anywhere. -/
theorem Filled.loosen (filled : v.Filled none) (d : Option EntId) : v.Filled d :=
  fun g pos inside _ joined => filled g pos inside (by simp) joined

end filled

end View
end SfqSched
