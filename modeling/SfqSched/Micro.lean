import SfqSched.Steady
import SfqSched.CoreSteps

namespace SfqSched
open State

/-- Threads `0` and `1` are there from the start; all others come from a fork. -/
def forked (t : Tid) : Prop := 2 ≤ t

theorem not_forked_one : ¬forked 1 := by
  unfold forked
  decide

namespace View

/-- An entity with a place in the accounts of a queue. -/
def seated (v : View) (e : EntId) : Prop := v.joined e ∧ e.pss v.cls

/-- Neither queued nor running: a thread state between two stays on a queue. -/
def resting (v : View) (t : Tid) : Prop := v.tdState t ≠ .runq ∧ v.tdState t ≠ .running

/-- A thread whose vruntime counts from the zero of its queue, not from the queue's vtime. -/
def absolute (v : View) (t : Tid) : Prop :=
  v.cls t = .pss ∧ (v.joined (.thread t) ∨ (v.initial (.thread t) = false ∧ v.resting t))

/-- No queue has a current entity. -/
def vacant (v : View) : Prop := ∀ q, v.curr q = none

end View

/-- What a run keeps to, so that certain properties hold in it. -/
structure Conds where
  positive : Prop
  marks : Prop
  forks : Prop
  calm : Prop
  idleness : Prop
  steady : Prop

/-- The invariant between any two steps. -/
structure Inv (C : Conds) (s : State) (current : List EntId) (dangling : Option EntId) : Prop where
  core : s.view.Core current
  tight : C.positive → s.view.Tight dangling
  filled : s.view.Filled dangling

/-- A step that moves no entity, writes no time and changes no weight. -/
structure Quiet (s s' : State) : Prop where
  books : s'.books = s.books
  steady : Steady s s'
  nthreads : s'.view.nthreads = s.view.nthreads
  cls : s'.view.cls = s.view.cls
  exited : s'.view.exited = s.view.exited
  curr : s'.view.curr = s.view.curr
  shares : s'.view.shares = s.view.shares
  weight : ∀ g, s'.view.weight (.group g) = s.view.weight (.group g)
  seated : ∀ e, s'.view.seated e ↔ s.view.seated e
  sfq : ∀ e, s.view.seated e ∨ (∃ q, s.view.curr q = some e) → s'.view.sfq e = s.view.sfq e
  absolute : ∀ t, s.view.exited t = false →
    (s'.view.absolute t ↔ s.view.absolute t) ∧ (s.view.absolute t → s'.view.sfq (.thread t) = s.view.sfq (.thread t))

theorem Quiet.of_view {s s' : State} (view : s'.view = s.view) (books : s'.books = s.books) (steady : Steady s s') :
    Quiet s s' := by
  constructor <;> simp_all

/-- When time may pass: whoever is current is also in the accounts. -/
def TimeFits (C : Conds) (v : View) : Prop :=
  ∀ q e, v.curr q = some e → (C.positive ∨ ∃ t, e = .thread t) → v.joined e

/-- When an entity may be enqueued on its queue. -/
structure EnqueueFits (C : Conds) (v : View) (e : EntId) : Prop where
  pss : e.pss v.cls
  valid : e.valid v.nthreads v.ngroups
  away : (C.positive ∨ ∃ t, e = .thread t) → v.curr (v.sfq e) ≠ some e
  weight : ∀ g, e = .group g → v.weight e = v.shares g

/-- A thread outside the accounts that no queue has as its current entity. -/
structure Detached (v : View) (t : Tid) : Prop where
  inside : t < v.nthreads
  live : v.exited t = false
  apart : v.joined (.thread t) = false
  away : ∀ q, v.curr q ≠ some (.thread t)

/-- The store of `sched_class`. -/
def storeClass (s : State) (t : Tid) (priClass : PriClass) (cls : SchedClass) : State :=
  s.modTd t fun td => { td with tdPriClass := priClass, cls := cls }

/-- When that store keeps weights right. -/
def IdlenessKept (C : Conds) (s : State) (t : Tid) (priClass : PriClass) (cls : SchedClass) : Prop :=
  C.idleness → cls = .idle ∨ (s.view.cls t ≠ .idle ∧ ((s.td t).tdPriClass = .idle ↔ priClass = .idle))

/-- The exchange of `child_runs_first` writes the vruntime of an entity inside a timeline. -/
def forkSwapsQueued (s : State) (parent : Tid) (newProc : Bool) (stale : SchedEntity) : Prop :=
  (s.td parent).cls = .pss ∧ (s.ent (.thread parent)).onSfq ∧
    forkSwaps (pssForkPlace (schedForkInit (forkAlloc s parent newProc) parent s.nthreads stale) parent s.nthreads)
      parent s.nthreads

/-- One step on the way of threads through the queues and to the CPU, with what
its place in the operation says about it. -/
inductive Flow (C : Conds) (s s' : State) : Prop
  | quiet (same : Quiet s s')
  | clock (run : s' = updateRqClock s) (fits : TimeFits C s.view)
  | charge (q : Nat) (run : s' = updateCurr s q)
  | reshare (q : Nat) (inside : q < s.view.ngroups) (run : s' = updateSfqShares s q)
  | enqueue (e : EntId) (flags : Nat) (run : enqueueEntity s (s.view.sfq e) e flags = some s')
      (fits : EnqueueFits C s.view e)
      (form : ∀ t, e = .thread t → forked t → (flags &&& enqueueWakeup ≠ 0 ↔ s.view.absolute t))
  | start (t : Tid) (flags : Nat) (initial : s.view.initial (.thread t))
      (run : enqueueEntity (updateRqClock (s.modEnt (.thread t) fun se => { se with initial := false }))
        (s.view.sfq (.thread t)) (.thread t) flags = some s')
      (time : TimeFits C s.view) (fits : EnqueueFits C s.view (.thread t)) (form : flags &&& enqueueWakeup = 0)
  | dequeue (e : EntId) (flags : Nat) (run : dequeueEntity s (s.view.sfq e) e flags = some s')
      (seated : s.view.seated e)
      (form : ∀ t, e = .thread t → forked t →
        s.view.initial (.thread t) = false ∧ (flags &&& dequeueSleep ≠ 0 ↔ s.view.resting t))
  | putPrev (t : Tid) (flags : Nat) (run : pssPutPrevThread s t flags = some s') (pss : s.view.cls t = .pss)
      (inv : Inv C s (walkup s (some (.thread t))) none)
  | activate (t : Tid) (run : pssActivateThread s t = some s') (pss : s.view.cls t = .pss) (inv : Inv C s [] none)
  | mark (ok : Nat → EntId → Prop) (view : s'.view = s.view) (marked : s.books.Marked ok s'.books)
      (steady : Steady s s')
      (fits : ∀ q e, ok q e → s.view.sfq e = q ∧ (C.positive → C.marks → s.view.seated e))
  | uncount (t : Tid) (run : rqRunRem s t = some s')
      (enough : s.view.noLoad t = false → 0 < s.view.nrSysrunning)
  | choose (run : s' = s.emit .choose)
  | pick (q : Nat) (e : EntId) (run : pickNextEntity s q = some (e, s')) (vacant : s.view.vacant)
  | rtActivate (t : Tid) (run : rtActivateThread s t = some s') (cls : s.view.cls t = .realtime)
      (vacant : s.view.vacant)

/-- One step of an operation: it moves threads, or changes what is set about threads and groups. -/
inductive Micro (C : Conds) (s s' : State) : Prop
  | flow (step : Flow C s s')
  | recast (t : Tid) (priClass : PriClass) (cls : SchedClass) (run : s' = storeClass s t priClass cls)
      (apart : Detached s.view t) (idleness : IdlenessKept C s t priClass cls)
      (form : forked t → s.view.initial (.thread t) ∨ ¬s.view.resting t ∨ (s.view.cls t = .pss ↔ cls = .pss))
  | switchedFrom (t : Tid) (priClass : PriClass) (cls : SchedClass)
      (run : s' = pssSwitchedFrom (storeClass s t priClass cls) t)
      (apart : Detached s.view t) (idleness : IdlenessKept C s t priClass cls)
      (form : s.view.absolute t ∧ cls ≠ .pss)
  | switchedTo (t : Tid) (priClass : PriClass)
      (run : s' = addVtime (storeClass s t priClass .pss) (s.view.sfq (.thread t)) (.thread t))
      (apart : Detached s.view t) (idleness : IdlenessKept C s t priClass .pss)
      (form : s.view.cls t ≠ .pss ∧ s.view.initial (.thread t) = false ∧ s.view.resting t)
  | weigh (t : Tid) (run : s' = setThreadWeight s t) (apart : ¬s.view.seated (.thread t))
  | nice (p : Pid) (nice : Int) (range : prioMin ≤ nice ∧ nice ≤ prioMax)
      (run : s' = s.modProc p fun proc => { proc with nice := nice }) (loud : ¬C.steady)
  | move (t : Tid) (onRq : Bool) (run : s' = pssSchedGroupMove s t onRq) (apart : Detached s.view t)
      (pss : s.view.cls t = .pss) (form : onRq = false ↔ s.view.resting t)
  | fork (parent : Tid) (newProc : Bool) (stale : SchedEntity) (run : s' = SfqSched.fork s parent newProc stale)
      (inside : parent < s.view.nthreads) (live : s.view.exited parent = false) (time : TimeFits C s.view)
      (swap : C.forks → ¬forkSwapsQueued s parent newProc stale)
  | exit (t : Tid)
      (run : s' = (s.modTd t fun td => { td with tdState := .inactive, exited := true }).modProc (s.td t).proc
        fun p => { p with threads := p.threads.filter (· ≠ t) })
      (apart : ¬s.view.seated (.thread t))
  | setShares (g : Nat) (shares : Nat) (run : s' = s.modGrp g fun sg => { sg with shares := shares })
      (calm : C.calm → s.view.joined (.group g) → shares = s.view.shares g)
  | create (parent : Nat) (shares : Nat) (run : s' = schedGroupCreate s parent shares) (inside : parent < s.view.ngroups)
      (apart : ∀ q, s.view.curr q ≠ some (.group s.view.ngroups))
  | sysctl (write : Sysctl) (tun : Tunables) (new : sysctlWrite s.tun write = some tun) (run : s' = { s with tun := tun })

/-- A sequence of steps, each from a state in which the invariant holds. -/
inductive Path (C : Conds) : State → State → Prop
  | refl (s : State) : Path C s s
  | step {s s' s'' : State} {current : List EntId} {dangling : Option EntId} :
      Inv C s current dangling → Micro C s s' → Path C s' s'' → Path C s s''

namespace Path
variable {C : Conds} {s s' s'' : State}

theorem trans (h : Path C s s') (h' : Path C s' s'') : Path C s s'' := by
  induction h with
  | refl => exact h'
  | step inv micro _ ih => exact .step inv micro (ih h')

theorem one {current : List EntId} {dangling : Option EntId} (inv : Inv C s current dangling)
    (micro : Micro C s s') : Path C s s' := .step inv micro (.refl _)

theorem flow {current : List EntId} {dangling : Option EntId} (inv : Inv C s current dangling)
    (step : Flow C s s') : Path C s s' := .one inv (.flow step)

theorem quiet {current : List EntId} {dangling : Option EntId} (inv : Inv C s current dangling)
    (same : Quiet s s') : Path C s s' := .flow inv (.quiet same)

end Path

end SfqSched
