import Mathlib.Algebra.Order.Ring.Int
import Mathlib.Data.Int.Order.Basic
import Mathlib.Tactic.Linarith
import Mathlib.Tactic.Ring

namespace SfqSched

/-- `struct timespec`. -/
structure Timespec where
  tvSec : Int := 0
  tvNsec : Int := 0
  deriving DecidableEq, Repr

namespace Timespec

/-- The time in nanoseconds. -/
def ns (ts : Timespec) : Int := ts.tvSec * 1000000000 + ts.tvNsec

structure Normal (ts : Timespec) : Prop where
  nonneg : 0 ≤ ts.tvNsec
  lt : ts.tvNsec < 1000000000

/-- `timespecadd`. -/
def add (a b : Timespec) : Timespec :=
  let sec := a.tvSec + b.tvSec
  let nsec := a.tvNsec + b.tvNsec
  if 1000000000 ≤ nsec then { tvSec := sec + 1, tvNsec := nsec - 1000000000 } else { tvSec := sec, tvNsec := nsec }

/-- `timespecsub`. -/
def sub (a b : Timespec) : Timespec :=
  let sec := a.tvSec - b.tvSec
  let nsec := a.tvNsec - b.tvNsec
  if nsec < 0 then { tvSec := sec - 1, tvNsec := nsec + 1000000000 } else { tvSec := sec, tvNsec := nsec }

/-- `timespeccmp(a, b, >=)`. -/
def cmpGe (a b : Timespec) : Bool := if a.tvSec = b.tvSec then a.tvNsec ≥ b.tvNsec else a.tvSec ≥ b.tvSec

end Timespec

/-- `timespec_to_ns`, a `uint64_t`. -/
def timespecToNs (ts : Timespec) : Nat := ((ts.tvSec * 1000000000 + ts.tvNsec) % 2 ^ 64).toNat

/-- `ns_to_timespec`. -/
def nsToTimespec (ns : Nat) : Timespec := { tvSec := (ns / 1000000000 : ℕ), tvNsec := (ns % 1000000000 : ℕ) }

/-- The `struct callout` of a timer: whether it is armed, and for when. -/
structure Callout where
  active : Bool := false
  time : Int := 0
  deriving DecidableEq, Repr

/-- `struct hrtimer`, without its function and its lock. -/
structure Hrtimer where
  callout : Callout := {}
  expiry : Timespec := {}
  deriving DecidableEq, Repr

/-- `timespec_add_ns`. -/
def timespecAddNs (ts : Timespec) (ns : Nat) : Timespec := ts.add (nsToTimespec ns)

/-- `timespec_div_ns`. -/
def timespecDivNs (ts : Timespec) (ns : Nat) : Nat := timespecToNs ts / ns

/-- `hrtimer_forward`; the overrun is returned as an `int`. -/
def hrtimerForward (timer : Hrtimer) (now interval : Timespec) : Int × Hrtimer :=
  let delta := now.sub timer.expiry
  if delta.tvSec < 0 then (0, timer)
  else if delta.cmpGe interval then
    let incr := timespecToNs interval
    let overrun := (1 + timespecDivNs delta incr) % 2 ^ 64
    let expiry := timespecAddNs timer.expiry (overrun * incr % 2 ^ 64)
    ((BitVec.ofNat 32 overrun).toInt, { timer with expiry := expiry.add interval })
  else (1, { timer with expiry := timer.expiry.add interval })

inductive HrtimerMode
  | rel | abs
  deriving DecidableEq, Repr

/-- `hrtimer_active`. -/
def hrtimerActive (timer : Hrtimer) : Bool := timer.callout.active

/-- `hrtimer_get_expiry`, which stores its argument in the timer. -/
def hrtimerGetExpiry (timer : Hrtimer) (ts : Timespec) : Hrtimer := { timer with expiry := ts }

/-- `hrtimer_start` at the time `uptime`; `tstosbt` is the conversion of the kernel. -/
def hrtimerStart (tstosbt : Timespec → Int) (uptime : Timespec) (timer : Hrtimer) (ts : Timespec) (mode : HrtimerMode) :
    Hrtimer :=
  let expiry := match mode with
    | .abs => ts
    | .rel => uptime.add ts
  { timer with expiry := expiry, callout := { active := true, time := tstosbt expiry } }

/-- `start_bandwidth_timer`. The local variable `expiry` is not initialised; it holds `stale`. -/
def startBandwidthTimer (tstosbt : Timespec → Int) (now stale : Timespec) (timer : Hrtimer) (period : Timespec) :
    Hrtimer :=
  if hrtimerActive timer then timer
  else
    let timer := (hrtimerForward timer now period).2
    let timer := hrtimerGetExpiry timer stale
    hrtimerStart tstosbt now timer stale .abs

namespace Timespec
variable {a b ts : Timespec}

theorem add_ns (a b : Timespec) : (a.add b).ns = a.ns + b.ns := by
  unfold add ns
  simp only
  split <;> ring

theorem sub_ns (a b : Timespec) : (a.sub b).ns = a.ns - b.ns := by
  unfold sub ns
  simp only
  split <;> ring

theorem sub_normal (left : a.Normal) (right : b.Normal) : (a.sub b).Normal := by
  have aLow := left.nonneg
  have aHigh := left.lt
  have bLow := right.nonneg
  have bHigh := right.lt
  unfold sub
  simp only
  split <;> constructor <;> (simp only; omega)

theorem Normal.sec_neg (normal : ts.Normal) : ts.tvSec < 0 ↔ ts.ns < 0 := by
  have low := normal.nonneg
  have high := normal.lt
  unfold ns
  omega

theorem Normal.cmpGe_iff (left : a.Normal) (right : b.Normal) : a.cmpGe b = true ↔ b.ns ≤ a.ns := by
  have aLow := left.nonneg
  have aHigh := left.lt
  have bLow := right.nonneg
  have bHigh := right.lt
  unfold cmpGe ns
  split <;> simp only [ge_iff_le, decide_eq_true_eq] <;> omega

theorem toNs (ts : Timespec) (nonneg : 0 ≤ ts.ns) (fits : ts.ns < 2 ^ 63) : (timespecToNs ts : Int) = ts.ns := by
  change ((((ts.ns) % 2 ^ 64).toNat : ℕ) : Int) = ts.ns
  omega

theorem ofNs (n : Nat) : (nsToTimespec n).ns = n := by
  unfold nsToTimespec ns
  simp only
  omega

end Timespec

/-- What forwarding should do: nothing before the expiry, and after it the first point of
the timer's grid behind `now`, with the number of periods passed. -/
def Forwarded (timer : Hrtimer) (now interval : Timespec) (ret : Int) (timer' : Hrtimer) : Prop :=
  if now.ns < timer.expiry.ns then ret = 0 ∧ timer' = timer
  else timer'.expiry.ns = timer.expiry.ns + ret * interval.ns ∧ now.ns < timer'.expiry.ns ∧
    timer'.expiry.ns ≤ now.ns + interval.ns

section forward
variable {timer : Hrtimer} {now interval : Timespec}

/-- A delay of less than one interval takes the single step. -/
theorem hrtimerForward_short (expiry : timer.expiry.Normal) (time : now.Normal) (period : interval.Normal)
    (due : timer.expiry.ns ≤ now.ns) (short : now.ns - timer.expiry.ns < interval.ns) :
    hrtimerForward timer now interval = (1, { timer with expiry := timer.expiry.add interval }) := by
  have normal := Timespec.sub_normal time expiry
  have delta := Timespec.sub_ns now timer.expiry
  have late : ¬(now.sub timer.expiry).tvSec < 0 := by
    rw [normal.sec_neg]
    omega
  have single : ¬(now.sub timer.expiry).cmpGe interval = true := by
    rw [normal.cmpGe_iff period]
    omega
  unfold hrtimerForward
  simp only [if_neg late, if_neg single]

theorem hrtimerForward_early (expiry : timer.expiry.Normal) (time : now.Normal) (early : now.ns < timer.expiry.ns) :
    hrtimerForward timer now interval = (0, timer) := by
  have normal := Timespec.sub_normal time expiry
  have delta := Timespec.sub_ns now timer.expiry
  have before : (now.sub timer.expiry).tvSec < 0 := by
    rw [normal.sec_neg]
    omega
  unfold hrtimerForward
  simp only [if_pos before]

/-- A longer delay is advanced twice: past `now` by the multiplication, and by one more interval. -/
theorem hrtimerForward_long (expiry : timer.expiry.Normal) (time : now.Normal) (period : interval.Normal)
    (positive : 0 < interval.ns) (periodFits : interval.ns < 2 ^ 63) (long : interval.ns ≤ now.ns - timer.expiry.ns)
    (fits : now.ns - timer.expiry.ns < 2 ^ 63) :
    (hrtimerForward timer now interval).2.expiry.ns =
      timer.expiry.ns + ((now.ns - timer.expiry.ns) / interval.ns + 2) * interval.ns := by
  have normal := Timespec.sub_normal time expiry
  have delta := Timespec.sub_ns now timer.expiry
  have late : ¬(now.sub timer.expiry).tvSec < 0 := by
    rw [normal.sec_neg]
    omega
  have several : (now.sub timer.expiry).cmpGe interval = true := by
    rw [normal.cmpGe_iff period]
    omega
  have deltaNs := Timespec.toNs (now.sub timer.expiry) (by omega) (by omega)
  have incrNs := Timespec.toNs interval positive.le periodFits
  rw [delta] at deltaNs
  unfold hrtimerForward
  simp only [if_neg late, if_pos several, timespecAddNs, timespecDivNs, Timespec.add_ns, Timespec.ofNs]
  rw [← deltaNs, ← incrNs]
  rw [← incrNs] at positive periodFits
  rw [← deltaNs] at fits
  generalize timespecToNs (now.sub timer.expiry) = d at *
  generalize timespecToNs interval = i at *
  have periods : d / i * i ≤ d := Nat.div_mul_le_self d i
  have count : d / i ≤ d := Nat.div_le_self d i
  have product : (1 + d / i) * i = i + d / i * i := by ring
  have overrun : (1 + d / i) % 2 ^ 64 = 1 + d / i := Nat.mod_eq_of_lt (by omega)
  rw [overrun, product, Nat.mod_eq_of_lt (by omega)]
  push_cast
  ring

/-- `hrtimer_forward` does what it should exactly if less than one interval was missed. -/
theorem hrtimer_forward_exact (timer : Hrtimer) (now interval : Timespec) (expiry : timer.expiry.Normal) (time : now.Normal)
    (period : interval.Normal) (positive : 0 < interval.ns) (periodFits : interval.ns < 2 ^ 63)
    (fits : now.ns - timer.expiry.ns < 2 ^ 63) :
    Forwarded timer now interval (hrtimerForward timer now interval).1 (hrtimerForward timer now interval).2 ↔
      now.ns - timer.expiry.ns < interval.ns := by
  unfold Forwarded
  by_cases early : now.ns < timer.expiry.ns
  · rw [if_pos early, hrtimerForward_early expiry time early]
    exact iff_of_true ⟨rfl, rfl⟩ (by omega)
  · rw [if_neg early]
    by_cases short : now.ns - timer.expiry.ns < interval.ns
    · rw [hrtimerForward_short expiry time period (not_lt.mp early) short, Timespec.add_ns]
      exact iff_of_true ⟨by ring, by omega, by omega⟩ short
    · refine iff_of_false ?_ short
      rintro ⟨_, _, near⟩
      rw [hrtimerForward_long expiry time period positive periodFits (not_lt.mp short) fits] at near
      have beyond := Int.lt_ediv_add_one_mul_self (now.ns - timer.expiry.ns) positive
      linarith

/-- A timer of one second that is half a second late. -/
theorem hrtimer_forward_half :
    Forwarded { expiry := { tvSec := 5 } } { tvSec := 5, tvNsec := 500000000 } { tvSec := 1 }
      (hrtimerForward { expiry := { tvSec := 5 } } { tvSec := 5, tvNsec := 500000000 } { tvSec := 1 }).1
      (hrtimerForward { expiry := { tvSec := 5 } } { tvSec := 5, tvNsec := 500000000 } { tvSec := 1 }).2 :=
  (hrtimer_forward_exact { expiry := { tvSec := 5 } } { tvSec := 5, tvNsec := 500000000 } { tvSec := 1 }
    ⟨by decide, by decide⟩ ⟨by decide, by decide⟩ ⟨by decide, by decide⟩ (by decide) (by decide) (by decide)).mpr (by decide)

/-- The same timer, found one second late: it returns `2` and moves on by three seconds. -/
theorem hrtimer_forward_overshoots :
    hrtimerForward { expiry := { tvSec := 5 } } { tvSec := 6 } { tvSec := 1 } = (2, { expiry := { tvSec := 8 } }) ∧
      ¬Forwarded { expiry := { tvSec := 5 } } { tvSec := 6 } { tvSec := 1 }
        (hrtimerForward { expiry := { tvSec := 5 } } { tvSec := 6 } { tvSec := 1 }).1
        (hrtimerForward { expiry := { tvSec := 5 } } { tvSec := 6 } { tvSec := 1 }).2 := by
  have result : hrtimerForward { expiry := { tvSec := 5 } } { tvSec := 6 } { tvSec := 1 } =
      (2, { expiry := { tvSec := 8 } }) := by decide
  refine ⟨result, ?_⟩
  rw [result]
  unfold Forwarded
  rw [if_neg (by decide)]
  rintro ⟨grid, _⟩
  exact absurd grid (by decide)

end forward

/-- What starting should do: leave an active timer alone, and arm another one for the expiry
`hrtimer_forward` computes. -/
def StartedForwarded (tstosbt : Timespec → Int) (now : Timespec) (timer : Hrtimer) (period : Timespec)
    (timer' : Hrtimer) : Prop :=
  if hrtimerActive timer then timer' = timer
  else
    let expiry := (hrtimerForward timer now period).2.expiry
    timer'.callout = { active := true, time := tstosbt expiry } ∧ timer'.expiry = expiry

/-- `start_bandwidth_timer` does so exactly if the timer is active or its local variable already
happens to hold the forwarded expiry. -/
theorem start_bandwidth_timer (tstosbt : Timespec → Int) (now stale : Timespec) (timer : Hrtimer) (period : Timespec) :
    StartedForwarded tstosbt now timer period (startBandwidthTimer tstosbt now stale timer period) ↔
      timer.callout.active = true ∨ stale = (hrtimerForward timer now period).2.expiry := by
  unfold StartedForwarded startBandwidthTimer hrtimerActive
  by_cases active : timer.callout.active = true
  · simp only [if_pos active]
    exact iff_of_true trivial (.inl active)
  · simp only [if_neg active, hrtimerStart]
    constructor
    · rintro ⟨_, same⟩
      exact .inr same
    · rintro (there | same)
      · exact absurd there active
      · rw [same]
        exact ⟨rfl, rfl⟩

/-- A timer at 5 s with a period of 1 s, started at 5.5 s while the variable holds 0: it is armed for 0. -/
theorem start_bandwidth_timer_stale :
    ¬∀ (tstosbt : Timespec → Int) (now stale : Timespec) (timer : Hrtimer) (period : Timespec), 0 < period.ns →
      StartedForwarded tstosbt now timer period (startBandwidthTimer tstosbt now stale timer period) := by
  intro claimed
  have started := claimed Timespec.ns { tvSec := 5, tvNsec := 500000000 } {} { expiry := { tvSec := 5 } } { tvSec := 1 }
    (by decide)
  unfold StartedForwarded at started
  exact absurd started.2 (by decide)

end SfqSched
