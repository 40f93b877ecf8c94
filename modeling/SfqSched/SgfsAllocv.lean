import Mathlib.Data.List.Nodup
import SfqSched.Sgfs

namespace SfqSched.Sgfs
open Function

/-- Where a call of `sgfs_allocv` is, with the vnodes it has. -/
inductive AllocvPc
  | idle
  /-- with the lock, before the first search, and after it has found nothing -/
  | search
  | unlock
  /-- before `getnewvnode`, and with the new vnode before the second `sx_xlock` -/
  | getnewvnode
  | relock (new : VnodeId)
  /-- with the lock, before the second search, and after it has found an entry -/
  | recheck (new : VnodeId)
  | lost (v new : VnodeId)
  /-- before `vgone` of the new vnode -/
  | vgone (v new : VnodeId)
  /-- with the lock, before the new vnode is linked, and before the lock is released -/
  | link (new : VnodeId)
  | linked (new : VnodeId)
  /-- at the label `found` -/
  | found (v : VnodeId)
  | vget (v : VnodeId)
  | done (result : Except Errno VnodeId)
deriving DecidableEq

/-- The sections that run with the lock held. -/
def AllocvPc.locked : AllocvPc → Bool
  | .search | .unlock | .recheck _ | .lost _ _ | .link _ | .linked _ | .found _ => true
  | _ => false

/-- The new vnode that a call has not linked yet. -/
def AllocvPc.fresh : AllocvPc → Option VnodeId
  | .relock new | .recheck new | .lost _ new | .vgone _ new | .link new => some new
  | _ => none

/-- The vnode that a call has found or linked. -/
def AllocvPc.chosen : AllocvPc → Option VnodeId
  | .lost v _ | .vgone v _ | .linked v | .found v | .vget v | .done (.ok v) => some v
  | _ => none

/-- Whether a call is on the way from a lost race. -/
def AllocvPc.losing : AllocvPc → Bool
  | .lost _ _ | .vgone _ _ => true
  | _ => false

/-- The calls of `sgfs_allocv` on one node: `mp` says for which mount each one is, `vnodes` is the
list of the node. `acquired` and `released` count what each call does to the lock. -/
structure Allocv where
  pc : Nat → AllocvPc := fun _ => .idle
  lock : Option Nat := none
  vnodes : List VnodeId := []
  vnode : VnodeId → Vnode := fun _ => {}
  nvnodes : Nat := 0
  acquired : Nat → Nat := fun _ => 0
  released : Nat → Nat := fun _ => 0
  /-- a `NULL` was followed, after which nothing runs -/
  fault : Bool := false

namespace Allocv

def goto (s : Allocv) (c : Nat) (pc : AllocvPc) : Allocv := { s with pc := update s.pc c pc }

/-- `sx_xlock`, which waits while another call has the lock. -/
def sxXlock (s : Allocv) (c : Nat) : Option Allocv :=
  if s.lock = none then some { s with lock := some c, acquired := update s.acquired c (s.acquired c + 1) } else none

/-- `sx_xunlock`. -/
def sxXunlock (s : Allocv) (c : Nat) : Allocv :=
  { s with lock := if s.lock = some c then none else s.lock, released := update s.released c (s.released c + 1) }

/-- The loop over `node->vnodes`. -/
def entry (s : Allocv) (mp : MountId) : Option VnodeId := s.vnodes.find? fun v => (s.vnode v).mount = mp

/-- What `sgfs_reclaim` does once it has read the node from `v_data`. -/
def reclaim (s : Allocv) (c : Nat) (new : VnodeId) : Option Allocv :=
  (s.sxXlock c).map fun s => sxXunlock { s with
    vnode := update s.vnode new { s.vnode new with data := none }, vnodes := s.vnodes.erase new } c

/-- One step of the call `c` for the node `node`; `avail` says whether `getnewvnode` and `insmntque` succeed. -/
def step (mp : Nat → MountId) (node : NodeId) (s : Allocv) (c : Nat) (avail : Bool) : Option Allocv :=
  if s.fault then none
  else
    match s.pc c with
    | .idle => (s.sxXlock c).map fun s => s.goto c .search
    | .search =>
      match s.entry (mp c) with
      | some v => some (s.goto c (.found v))
      | none => some (s.goto c .unlock)
    | .unlock => some ((s.sxXunlock c).goto c .getnewvnode)
    | .getnewvnode =>
      if avail then
        some ({ s with vnode := update s.vnode s.nvnodes { mount := mp c }, nvnodes := s.nvnodes + 1 }.goto c (.relock s.nvnodes))
      else some (s.goto c (.done (.error .enfile)))
    | .relock new => (s.sxXlock c).map fun s => s.goto c (.recheck new)
    | .recheck new =>
      match s.entry (mp c) with
      | some v => some (s.goto c (.lost v new))
      | none => some (s.goto c (.link new))
    | .lost v new => some ((s.sxXunlock c).goto c (.vgone v new))
    -- `vgone` calls `sgfs_reclaim`, which follows `v_data`, and the call jumps back to `found`
    | .vgone v new =>
      match (s.vnode new).data with
      | none => some { s with fault := true }
      | some _ => (s.reclaim c new).map fun s => s.goto c (.found v)
    | .link new => some ({ s with
        vnode := update s.vnode new { s.vnode new with data := some node }, vnodes := new :: s.vnodes }.goto c (.linked new))
    | .linked new => some ((s.sxXunlock c).goto c (.done (.ok new)))
    | .found v => some ((s.sxXunlock c).goto c (.vget v))
    | .vget v => some (s.goto c (.done (.ok v)))
    | .done _ => none

/-- Whether the step is a second search that finds an entry. -/
def loses (mp : Nat → MountId) (s : Allocv) (c : Nat) : Bool :=
  match s.pc c with
  | .recheck _ => (s.entry (mp c)).isSome
  | _ => false

/-- A state that some interleaving of calls leads to; `ordered` asks that no call loses a race. -/
inductive Reached (mp : Nat → MountId) (node : NodeId) (ordered : Prop) : Allocv → Prop
  | start : Reached mp node ordered {}
  | step {s s' c avail} : Reached mp node ordered s → (ordered → s.loses mp c = false) → s.step mp node c avail = some s' →
      Reached mp node ordered s'

/-- The invariant of the calls and the list. -/
structure Fits (mp : Nat → MountId) (s : Allocv) : Prop where
  lock : ∀ c, (s.pc c).locked = true ↔ s.lock = some c
  count : ∀ c, s.acquired c = s.released c + (s.pc c).locked.toNat
  unique : (s.vnodes.map fun v => (s.vnode v).mount).Nodup
  old : ∀ v ∈ s.vnodes, v < s.nvnodes
  new : ∀ c v, (s.pc c).fresh = some v → v < s.nvnodes ∧ v ∉ s.vnodes ∧ (s.vnode v).mount = mp c ∧ (s.vnode v).data = none
  apart : ∀ c c' v, (s.pc c).fresh = some v → (s.pc c').fresh = some v → c = c'
  missed : ∀ c v, s.pc c = .link v → ∀ w ∈ s.vnodes, (s.vnode w).mount ≠ mp c
  chosen : ∀ c v, (s.pc c).chosen = some v → v ∈ s.vnodes ∧ (s.vnode v).mount = mp c

section steps
variable {mp : Nat → MountId} {node : NodeId} {s s' : Allocv} {c : Nat} {avail : Bool}

theorem entry_some {m : MountId} {v : VnodeId} (found : s.entry m = some v) : v ∈ s.vnodes ∧ (s.vnode v).mount = m :=
  ⟨List.mem_of_find?_eq_some found, by simpa using List.find?_some found⟩

theorem entry_none {m : MountId} (missed : s.entry m = none) : ∀ w ∈ s.vnodes, (s.vnode w).mount ≠ m := by
  simpa [entry] using missed

theorem Fits.entry_of_mem (fits : Fits mp s) {m : MountId} {v : VnodeId} (member : v ∈ s.vnodes)
    (mount : (s.vnode v).mount = m) : s.entry m = some v := by
  cases search : s.entry m with
  | none => exact absurd mount (entry_none search v member)
  | some w =>
    obtain ⟨member', mount'⟩ := entry_some search
    exact congrArg some (List.inj_on_of_nodup_map fits.unique member' member (mount'.trans mount.symm))

/-- A step that leaves the vnodes and the list alone. -/
theorem Fits.move (fits : Fits mp s) {pc : AllocvPc} {l : Option Nat} {a r : Nat → Nat}
    (others : ∀ d, d ≠ c → a d = s.acquired d ∧ r d = s.released d) (own : pc.locked = true ↔ l = some c)
    (kept : ∀ d, d ≠ c → (l = some d ↔ s.lock = some d)) (count : a c = r c + pc.locked.toNat)
    (fresh : ∀ v, pc.fresh = some v → (s.pc c).fresh = some v)
    (missed : ∀ v, pc = .link v → ∀ w ∈ s.vnodes, (s.vnode w).mount ≠ mp c)
    (chosen : ∀ v, pc.chosen = some v → v ∈ s.vnodes ∧ (s.vnode v).mount = mp c) :
    Fits mp { s with pc := update s.pc c pc, lock := l, acquired := a, released := r } := by
  have fresh' (d : Nat) (v : VnodeId) (new : (update s.pc c pc d).fresh = some v) : (s.pc d).fresh = some v := by
    by_cases same : d = c
    · subst same
      rw [update_self] at new
      exact fresh v new
    · rwa [update_of_ne same] at new
  refine ⟨fun d => ?_, fun d => ?_, fits.unique, fits.old, fun d v new => fits.new d v (fresh' d v new),
    fun d d' v new new' => fits.apart d d' v (fresh' d v new) (fresh' d' v new'), fun d v links => ?_, fun d v has => ?_⟩
  all_goals dsimp only at *
  · by_cases same : d = c
    · subst same
      rw [update_self]
      exact own
    · rw [update_of_ne same, kept d same]
      exact fits.lock d
  · by_cases same : d = c
    · subst same
      rw [update_self]
      exact count
    · rw [update_of_ne same, (others d same).1, (others d same).2]
      exact fits.count d
  · by_cases same : d = c
    · subst same
      rw [update_self] at links
      exact missed v links
    · rw [update_of_ne same] at links
      exact fits.missed d v links
  · by_cases same : d = c
    · subst same
      rw [update_self] at has
      exact chosen v has
    · rw [update_of_ne same] at has
      exact fits.chosen d v has

theorem Fits.crash (fits : Fits mp s) : Fits mp { s with fault := true } :=
  ⟨fits.lock, fits.count, fits.unique, fits.old, fits.new, fits.apart, fits.missed, fits.chosen⟩

/-- A call goes on without touching the lock. -/
theorem Fits.goto (fits : Fits mp s) {pc : AllocvPc} (locked : pc.locked = (s.pc c).locked)
    (fresh : ∀ v, pc.fresh = some v → (s.pc c).fresh = some v)
    (missed : ∀ v, pc = .link v → ∀ w ∈ s.vnodes, (s.vnode w).mount ≠ mp c)
    (chosen : ∀ v, pc.chosen = some v → v ∈ s.vnodes ∧ (s.vnode v).mount = mp c) : Fits mp (s.goto c pc) :=
  fits.move (fun _ _ => ⟨rfl, rfl⟩) (by rw [locked]; exact fits.lock c) (fun _ _ => .rfl) (by rw [locked]; exact fits.count c)
    fresh missed chosen

/-- A call takes the lock. -/
theorem Fits.acquire (fits : Fits mp s) {pc : AllocvPc} (free : (s.pc c).locked = false) (locked : pc.locked = true)
    (fresh : ∀ v, pc.fresh = some v → (s.pc c).fresh = some v) (missed : ∀ v, pc ≠ .link v) (chosen : pc.chosen = none)
    (run : (s.sxXlock c).map (fun s => s.goto c pc) = some s') : Fits mp s' := by
  obtain ⟨b, taken, rfl⟩ := Option.map_eq_some_iff.mp run
  unfold sxXlock at taken
  split at taken
  · rename_i unowned
    cases taken
    refine fits.move (fun d other => ⟨update_of_ne other .., rfl⟩) (iff_of_true locked rfl) (fun d other => ?_) ?_ fresh
      (fun v is => absurd is (missed v)) (fun v has => by rw [chosen] at has; cases has)
    · rw [unowned]
      simp [Ne.symm other]
    · have count := fits.count c
      rw [free] at count
      dsimp only
      rw [locked, update_self, count]
      rfl
  · cases taken

/-- A call gives the lock back. -/
theorem Fits.release (fits : Fits mp s) {pc : AllocvPc} (owned : (s.pc c).locked = true) (unlocked : pc.locked = false)
    (fresh : ∀ v, pc.fresh = some v → (s.pc c).fresh = some v) (missed : ∀ v, pc ≠ .link v)
    (chosen : ∀ v, pc.chosen = some v → (s.pc c).chosen = some v) : Fits mp ((s.sxXunlock c).goto c pc) := by
  have owner := (fits.lock c).mp owned
  refine fits.move (fun d other => ⟨rfl, update_of_ne other ..⟩) ?_ (fun d other => ?_) ?_ fresh
    (fun v is => absurd is (missed v)) (fun v has => fits.chosen c v (chosen v has))
  · simp [sxXunlock, unlocked, owner]
  · simp [sxXunlock, owner, Ne.symm other]
  · have count := fits.count c
    rw [owned] at count
    dsimp only [sxXunlock]
    rw [unlocked, update_self, count]
    rfl

/-- `getnewvnode` returns a vnode that nothing has and that has no data. -/
theorem Fits.create (fits : Fits mp s) (at_ : s.pc c = .getnewvnode) :
    Fits mp ({ s with vnode := update s.vnode s.nvnodes { mount := mp c }, nvnodes := s.nvnodes + 1 }.goto c
      (.relock s.nvnodes)) := by
  have listed (v : VnodeId) (member : v ∈ s.vnodes) : update s.vnode s.nvnodes { mount := mp c } v = s.vnode v :=
    update_of_ne (Nat.ne_of_lt (fits.old v member)) ..
  have mounts : (s.vnodes.map fun v => (update s.vnode s.nvnodes { mount := mp c } v).mount) =
      s.vnodes.map fun v => (s.vnode v).mount := List.map_congr_left fun v member => by rw [listed v member]
  have others (d : Nat) (other : d ≠ c) : update s.pc c (.relock s.nvnodes) d = s.pc d := update_of_ne other ..
  refine ⟨fun d => ?_, fun d => ?_, ?_, fun v member => Nat.lt_succ_of_lt (fits.old v member), fun d v new => ?_,
    fun d d' v new new' => ?_, fun d v links w member => ?_, fun d v has => ?_⟩
  all_goals dsimp only [Allocv.goto] at *
  · by_cases same : d = c
    · subst same
      have before := fits.lock d
      rw [at_] at before
      rw [update_self]
      exact before
    · rw [others d same]
      exact fits.lock d
  · by_cases same : d = c
    · subst same
      have before := fits.count d
      rw [at_] at before
      rw [update_self]
      exact before
    · rw [others d same]
      exact fits.count d
  · rw [mounts]
    exact fits.unique
  · by_cases same : d = c
    · subst same
      rw [update_self] at new
      cases new
      refine ⟨Nat.lt_succ_self _, fun member => Nat.lt_irrefl _ (fits.old _ member), ?_, ?_⟩ <;> rw [update_self]
    · rw [others d same] at new
      obtain ⟨small, unlisted, mount, data⟩ := fits.new d v new
      rw [update_of_ne (Nat.ne_of_lt small)]
      exact ⟨Nat.lt_succ_of_lt small, unlisted, mount, data⟩
  · by_cases same : d = c
    · by_cases same' : d' = c
      · rw [same, same']
      · rw [same, update_self] at new
        rw [others d' same'] at new'
        cases new
        exact absurd (fits.new d' _ new').1 (Nat.lt_irrefl _)
    · rw [others d same] at new
      by_cases same' : d' = c
      · rw [same', update_self] at new'
        cases new'
        exact absurd (fits.new d _ new).1 (Nat.lt_irrefl _)
      · rw [others d' same'] at new'
        exact fits.apart d d' v new new'
  · rw [listed w member]
    by_cases same : d = c
    · rw [same, update_self] at links
      cases links
    · rw [others d same] at links
      exact fits.missed d v links w member
  · by_cases same : d = c
    · rw [same, update_self] at has
      cases has
    · rw [others d same] at has
      obtain ⟨member, mount⟩ := fits.chosen d v has
      rw [listed v member]
      exact ⟨member, mount⟩

/-- A call that found no entry links its vnode; no other call holds the lock or this vnode. -/
theorem Fits.link (fits : Fits mp s) {new : VnodeId} (at_ : s.pc c = .link new) :
    Fits mp ({ s with
      vnode := update s.vnode new { s.vnode new with data := some node }, vnodes := new :: s.vnodes }.goto c (.linked new)) := by
  obtain ⟨small, unlisted, mount, _⟩ := fits.new c new (by rw [at_]; rfl)
  have missed := fits.missed c new at_
  have mounts (v : VnodeId) : (update s.vnode new { s.vnode new with data := some node } v).mount = (s.vnode v).mount := by
    by_cases same : v = new
    · rw [same, update_self]
    · rw [update_of_ne same]
  have others (d : Nat) (other : d ≠ c) : update s.pc c (.linked new) d = s.pc d := update_of_ne other ..
  have owned : s.lock = some c := (fits.lock c).mp (by rw [at_]; rfl)
  -- only the call that has the lock is about to link
  have alone (d : Nat) (v : VnodeId) (links : s.pc d = .link v) : d = c := by
    have owned' := (fits.lock d).mp (by rw [links]; rfl)
    exact Option.some.inj (owned'.symm.trans owned)
  refine ⟨fun d => ?_, fun d => ?_, ?_, fun v member => ?_, fun d v fresh => ?_, fun d d' v fresh fresh' => ?_,
    fun d v links => ?_, fun d v has => ?_⟩
  all_goals dsimp only [Allocv.goto] at *
  · by_cases same : d = c
    · subst same
      rw [update_self]
      exact iff_of_true rfl owned
    · rw [others d same]
      exact fits.lock d
  · by_cases same : d = c
    · subst same
      have before := fits.count d
      rw [at_] at before
      rw [update_self]
      exact before
    · rw [others d same]
      exact fits.count d
  · simp only [mounts, List.map_cons, List.nodup_cons]
    refine ⟨fun member => ?_, fits.unique⟩
    obtain ⟨w, inside, same⟩ := List.mem_map.mp member
    exact missed w inside (same.trans mount)
  · rcases List.mem_cons.mp member with rfl | member
    · exact small
    · exact fits.old v member
  · by_cases same : d = c
    · rw [same, update_self] at fresh
      cases fresh
    · rw [others d same] at fresh
      obtain ⟨small', unlisted', mount', data⟩ := fits.new d v fresh
      have apart : v ≠ new := by
        rintro rfl
        exact same (fits.apart d c v fresh (by rw [at_]; rfl))
      rw [update_of_ne apart]
      exact ⟨small', by simp [apart, unlisted'], mount', data⟩
  · by_cases same : d = c
    · rw [same, update_self] at fresh
      cases fresh
    · by_cases same' : d' = c
      · rw [same', update_self] at fresh'
        cases fresh'
      · rw [others d same] at fresh
        rw [others d' same'] at fresh'
        exact fits.apart d d' v fresh fresh'
  · by_cases same : d = c
    · rw [same, update_self] at links
      cases links
    · rw [others d same] at links
      exact absurd (alone d v links) same
  · rw [mounts]
    by_cases same : d = c
    · rw [same, update_self] at has
      cases has
      rw [same]
      exact ⟨List.mem_cons_self .., mount⟩
    · rw [others d same] at has
      obtain ⟨member, mount'⟩ := fits.chosen d v has
      exact ⟨List.mem_cons_of_mem _ member, mount'⟩

theorem step_fits (fits : Fits mp s) (run : s.step mp node c avail = some s') : Fits mp s' := by
  unfold step at run
  split at run
  · cases run
  cases at_ : s.pc c with
  | idle =>
    rw [at_] at run
    exact fits.acquire (by rw [at_]; rfl) rfl (by simp [AllocvPc.fresh]) (by simp) rfl run
  | search =>
    rw [at_] at run
    dsimp only at run
    split at run
    · rename_i v found
      cases run
      refine fits.goto (by rw [at_]; rfl) (by simp [AllocvPc.fresh]) (by simp) fun w has => ?_
      cases has
      exact entry_some found
    · cases run
      exact fits.goto (by rw [at_]; rfl) (by simp [AllocvPc.fresh]) (by simp) (by simp [AllocvPc.chosen])
  | unlock =>
    rw [at_] at run
    cases run
    exact fits.release (by rw [at_]; rfl) rfl (by simp [AllocvPc.fresh]) (by simp) (by simp [AllocvPc.chosen])
  | getnewvnode =>
    rw [at_] at run
    dsimp only at run
    split at run
    · cases run
      exact fits.create at_
    · cases run
      exact fits.goto (by rw [at_]; rfl) (by simp [AllocvPc.fresh]) (by simp) (by simp [AllocvPc.chosen])
  | relock new =>
    rw [at_] at run
    exact fits.acquire (by rw [at_]; rfl) rfl (by simp [at_, AllocvPc.fresh]) (by simp) rfl run
  | recheck new =>
    rw [at_] at run
    dsimp only at run
    split at run
    · rename_i v found
      cases run
      refine fits.goto (by rw [at_]; rfl) (by simp [at_, AllocvPc.fresh]) (by simp) fun w has => ?_
      cases has
      exact entry_some found
    · rename_i missed
      cases run
      exact fits.goto (by rw [at_]; rfl) (by simp [at_, AllocvPc.fresh]) (fun _ _ => entry_none missed) (by simp [AllocvPc.chosen])
  | lost v new =>
    rw [at_] at run
    cases run
    exact fits.release (by rw [at_]; rfl) rfl (by simp [at_, AllocvPc.fresh]) (by simp) (by simp [at_, AllocvPc.chosen])
  | vgone v new =>
    rw [at_] at run
    dsimp only at run
    rw [(fits.new c new (by rw [at_]; rfl)).2.2.2] at run
    cases run
    exact fits.crash
  | link new =>
    rw [at_] at run
    cases run
    exact fits.link at_
  | linked new =>
    rw [at_] at run
    cases run
    exact fits.release (by rw [at_]; rfl) rfl (by simp [AllocvPc.fresh]) (by simp) (by simp [at_, AllocvPc.chosen])
  | found v =>
    rw [at_] at run
    cases run
    exact fits.release (by rw [at_]; rfl) rfl (by simp [AllocvPc.fresh]) (by simp) (by simp [at_, AllocvPc.chosen])
  | vget v =>
    rw [at_] at run
    cases run
    refine fits.goto (by rw [at_]; rfl) (by simp [AllocvPc.fresh]) (by simp) fun w has => ?_
    exact fits.chosen c w (by rw [at_]; exact has)
  | done result =>
    rw [at_] at run
    cases run

/-- The invariant holds in every state that the calls lead to. -/
theorem Reached.fits {ordered : Prop} (reached : Reached mp node ordered s) : Fits mp s := by
  induction reached with
  | start =>
    exact ⟨by simp [AllocvPc.locked], by simp [AllocvPc.locked], by simp, by simp, by simp [AllocvPc.fresh],
      by simp [AllocvPc.fresh], by simp, by simp [AllocvPc.chosen]⟩
  | step _ _ run fits => exact step_fits fits run

/-- No `NULL` was followed and no call is about to. -/
structure Calm (s : Allocv) : Prop where
  sound : s.fault = false
  ahead : ∀ d, (s.pc d).losing = false

theorem Calm.goto (calm : Calm s) {b : Allocv} {pc : AllocvPc} (sound : b.fault = s.fault) (others : b.pc = s.pc)
    (keeps : pc.losing = false) : Calm (b.goto c pc) := by
  refine ⟨sound.trans calm.sound, fun d => ?_⟩
  dsimp only [Allocv.goto]
  by_cases same : d = c
  · rw [same, update_self]
    exact keeps
  · rw [update_of_ne same, others]
    exact calm.ahead d

theorem Calm.acquire (calm : Calm s) {pc : AllocvPc} (keeps : pc.losing = false)
    (run : (s.sxXlock c).map (fun s => s.goto c pc) = some s') : Calm s' := by
  obtain ⟨b, taken, rfl⟩ := Option.map_eq_some_iff.mp run
  unfold sxXlock at taken
  split at taken
  · cases taken
    exact calm.goto rfl rfl keeps
  · cases taken

/-- A step that is no lost race leaves no call on the way to `vgone`. -/
theorem step_calm (calm : Calm s) (won : s.loses mp c = false) (run : s.step mp node c avail = some s') : Calm s' := by
  have away := calm.ahead c
  unfold step at run
  rw [calm.sound, if_neg Bool.false_ne_true] at run
  cases at_ : s.pc c with
  | idle =>
    rw [at_] at run
    exact calm.acquire rfl run
  | search =>
    rw [at_] at run
    dsimp only at run
    split at run <;> cases run <;> exact calm.goto rfl rfl rfl
  | unlock =>
    rw [at_] at run
    cases run
    exact calm.goto rfl rfl rfl
  | getnewvnode =>
    rw [at_] at run
    dsimp only at run
    split at run
    · cases run
      exact calm.goto calm.sound.symm rfl rfl
    · cases run
      exact calm.goto rfl rfl rfl
  | relock new =>
    rw [at_] at run
    exact calm.acquire rfl run
  | recheck new =>
    rw [at_] at run
    dsimp only at run
    split at run
    · rename_i v found
      simp [loses, at_, found] at won
    · cases run
      exact calm.goto rfl rfl rfl
  | lost v new =>
    rw [at_] at away
    cases away
  | vgone v new =>
    rw [at_] at away
    cases away
  | link new =>
    rw [at_] at run
    cases run
    exact calm.goto calm.sound.symm rfl rfl
  | linked new =>
    rw [at_] at run
    cases run
    exact calm.goto rfl rfl rfl
  | found v =>
    rw [at_] at run
    cases run
    exact calm.goto rfl rfl rfl
  | vget v =>
    rw [at_] at run
    cases run
    exact calm.goto rfl rfl rfl
  | done result =>
    rw [at_] at run
    cases run

theorem Reached.calm {ordered : Prop} (reached : Reached mp node ordered s) (holds : ordered) : Calm s := by
  induction reached with
  | start => exact ⟨rfl, fun _ => rfl⟩
  | step _ won run calm => exact step_calm calm (won holds) run

/-- The vnode of a lost race has no data, so `sgfs_reclaim` follows a `NULL`. -/
theorem Fits.vgone_faults (fits : Fits mp s) {v new : VnodeId} (at_ : s.pc c = .vgone v new) (sound : s.fault = false) :
    s.step mp node c avail = some { s with fault := true } := by
  unfold step
  rw [sound, if_neg Bool.false_ne_true, at_]
  dsimp only
  rw [(fits.new c new (by rw [at_]; rfl)).2.2.2]

/-- Every call gives back the lock it took and returns the vnode that the node has for its mount, in any
interleaving; a lost race, and nothing else, ends at a `NULL`. -/
theorem allocv_interleaved {ordered : Prop} (reached : Reached mp node ordered s) :
    (s.vnodes.map fun v => (s.vnode v).mount).Nodup ∧
      (∀ c result, s.pc c = .done result → s.acquired c = s.released c) ∧
      (∀ c v, s.pc c = .done (.ok v) → s.entry (mp c) = some v) ∧
      (ordered → s.fault = false) ∧
      ∀ c v new avail, s.pc c = .vgone v new → s.fault = false →
        s.step mp node c avail = some { s with fault := true } := by
  have fits := reached.fits
  refine ⟨fits.unique, fun c result at_ => ?_, fun c v at_ => ?_, fun holds => (reached.calm holds).sound,
    fun c v new avail at_ sound => fits.vgone_faults at_ sound⟩
  · have count := fits.count c
    rw [at_] at count
    exact count
  · obtain ⟨member, mount⟩ := fits.chosen c v (by rw [at_]; rfl)
    exact fits.entry_of_mem member mount

end steps

/-- The interleaving `calls`, which may be asked to have no lost race. -/
def follow (strict : Bool) (mp : Nat → MountId) (node : NodeId) : List (Nat × Bool) → Allocv → Option Allocv
  | [], s => some s
  | (c, avail) :: calls, s =>
    if strict && s.loses mp c then none else (s.step mp node c avail).bind (follow strict mp node calls)

theorem follow_reached {strict : Bool} {mp : Nat → MountId} {node : NodeId} {calls : List (Nat × Bool)} {s s' : Allocv}
    (reached : Reached mp node (strict = true) s) (run : follow strict mp node calls s = some s') :
    Reached mp node (strict = true) s' := by
  induction calls generalizing s with
  | nil =>
    cases run
    exact reached
  | cons call calls ih =>
    unfold follow at run
    split at run
    · cases run
    · rename_i ordered
      obtain ⟨b, step, rest⟩ := Option.bind_eq_some_iff.mp run
      refine ih (.step reached (fun holds => ?_) step) rest
      simpa [holds] using ordered

/-- Two calls one after the other: the second one finds the vnode of the first. -/
theorem allocv_interleaved_in_turn : ∃ s : Allocv, s.pc 0 = .done (.ok 0) ∧ s.pc 1 = .done (.ok 0) ∧ s.fault = false ∧
    s.acquired 1 = s.released 1 ∧ s.entry 7 = some 0 := by
  have run : (follow true (fun _ => 7) 3 (List.replicate 8 (0, true) ++ List.replicate 4 (1, true)) {}).map
      (fun s => (s.pc 0, s.pc 1)) = some (.done (.ok 0), .done (.ok 0)) := by decide +kernel
  obtain ⟨s, ran, ends⟩ := Option.map_eq_some_iff.mp run
  simp only [Prod.mk.injEq] at ends
  obtain ⟨_, counts, results, sound, _⟩ := allocv_interleaved (follow_reached .start ran)
  exact ⟨s, ends.1, ends.2, sound rfl, counts 1 _ ends.2, results 1 0 ends.2⟩

/-- Both calls find nothing first, and the second one to search again loses. -/
theorem allocv_lost_race : ¬ ∀ mp node s, Reached mp node (false = true) s → s.fault = false := by
  intro claim
  have run : (follow false (fun _ => 7) 3 (List.replicate 3 (0, true) ++ List.replicate 3 (1, true) ++
      List.replicate 5 (0, true) ++ List.replicate 5 (1, true)) {}).map Allocv.fault = some true := by decide +kernel
  obtain ⟨s, ran, faulted⟩ := Option.map_eq_some_iff.mp run
  rw [claim _ _ s (follow_reached .start ran)] at faulted
  cases faulted

end Allocv
end SfqSched.Sgfs
