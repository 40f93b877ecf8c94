import SfqSched.Types
import Mathlib.Algebra.Group.Nat.Defs

namespace SfqSched

/-- `NICE_0_WEIGHT`. -/
def nice0Weight : Nat := 1024

def idleprioWeight : Nat := 3
def idleprioWmult : Nat := 1431655765

def prioToWeight : List Nat :=
  [88818, 71054, 56843, 45475, 36380,
   29104, 23283, 18626, 14901, 11921,
   9537, 7629, 6104, 4883, 3906,
   3125, 2500, 2000, 1600, 1280,
   1024,
   819, 655, 524, 419, 336,
   268, 215, 172, 137, 110,
   88, 70, 56, 45, 36,
   29, 23, 18, 15, 12]

def prioToWmult : List Nat :=
  [48356, 60446, 75558, 94446, 118058,
   147573, 184467, 230589, 288233, 360285,
   450347, 562979, 703631, 879575, 1099582,
   1374389, 1717986, 2147483, 2684354, 3355443,
   4194304,
   5244160, 6557201, 8196502, 10250518, 12782640,
   16025997, 19976592, 24970740, 31350126, 39045157,
   48806446, 61356675, 76695844, 95443717, 119304647,
   148102320, 186737708, 238609294, 286331153, 357913941]

/-- `PRIO_MIN` and `PRIO_MAX` of `sys/resource.h`. -/
def prioMin : Int := -20
def prioMax : Int := 20

/-- Constants of `sys/priority.h`. -/
def puser : Nat := 120
def priMinKern : Nat := 80

/-- `NORMAL_PRI`. -/
def normalPri : Nat := puser + 1

def wmultConst : Nat := 2 ^ 32
def longMax : Nat := 2 ^ 63 - 1

/-- `RSR(x, y)`: round and shift right in 64 bits. -/
def rsr (x y : Nat) : Nat := (x + 2 ^ (y - 1)) % 2 ^ 64 / 2 ^ y

/-- The inverse `scale_by_weight` caches when none is stored. -/
def LoadWeight.cacheInv (lw : LoadWeight) : LoadWeight :=
  if lw.invWeight = 0 then
    { lw with invWeight :=
        if wmultConst ≤ lw.weight then 1
        else if lw.weight = 0 then wmultConst
        else wmultConst / lw.weight }
  else lw

theorem cacheInv_weight (lw : LoadWeight) : lw.cacheInv.weight = lw.weight := by
  unfold LoadWeight.cacheInv
  split <;> rfl

/-- `scale_by_weight`: `delta * weight / lw` and the load with its inverse cached. -/
def scaleByWeight (deltaExec weight : Nat) (lw : LoadWeight) : Nat × LoadWeight :=
  let tmp := deltaExec * weight % 2 ^ 64
  let lw := lw.cacheInv
  let scaled :=
    if wmultConst < tmp then rsr (rsr tmp 16 * lw.invWeight % 2 ^ 64) 16
    else rsr (tmp * lw.invWeight % 2 ^ 64) 32
  (min scaled longMax, lw)

def loadAdd (lw : LoadWeight) (inc : Nat) : LoadWeight := { weight := lw.weight + inc, invWeight := 0 }
def loadSub (lw : LoadWeight) (dec : Nat) : LoadWeight := { weight := lw.weight - dec, invWeight := 0 }
def loadSet (w : Nat) : LoadWeight := { weight := w, invWeight := 0 }

/-- The loads of queues: a queue starts with none, and four functions change it. -/
inductive LoadWeight.Kept : LoadWeight → Prop
  | empty : Kept {}
  | add (lw : LoadWeight) (inc : Nat) : Kept lw → Kept (loadAdd lw inc)
  | sub (lw : LoadWeight) (dec : Nat) : Kept lw → Kept (loadSub lw dec)
  | set (w : Nat) : Kept (loadSet w)
  | scale (lw : LoadWeight) (deltaExec weight : Nat) : Kept lw → Kept (scaleByWeight deltaExec weight lw).2

/-- The load `set_thread_weight` installs for a nice value and a priority class. -/
def threadLoad (nice : Int) (priClass : PriClass) : LoadWeight :=
  if priClass ≠ .idle then
    { weight := prioToWeight.getD (nice - prioMin).toNat 0
      invWeight := prioToWmult.getD (nice - prioMin).toNat 0 }
  else { weight := idleprioWeight, invWeight := idleprioWmult }

/-- `set_thread_weight`. -/
def setThreadWeight (s : State) (t : Tid) : State :=
  s.modEnt (.thread t) fun se =>
    { se with load := threadLoad (s.proc (s.td t).proc).nice (s.td t).tdPriClass }

end SfqSched
