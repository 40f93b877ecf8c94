import Mathlib.Tactic.Linarith

namespace SfqSched

/-- The value that an `int` has after a computation with the result `x`. -/
def int32 (x : Int) : Int := x.bmod (2 ^ 32)

theorem int32_eq {x : Int} (low : -2 ^ 31 ≤ x) (high : x < 2 ^ 31) : int32 x = x :=
  Int.bmod_eq_of_le (by omega) (by omega)

/-- The history of a `struct td_sched`. -/
structure PctHistory where
  ltick : Int
  ftick : Int
  ticks : Int
  deriving DecidableEq, Repr

section macros
variable (hz : Int)

/-- `SCHED_TICK_SECS` and `SCHED_TICK_SHIFT`. -/
def schedTickSecs : Int := 10
def schedTickShift : Nat := 10

/-- `SCHED_TICK_TARG` and `SCHED_TICK_MAX`. -/
def schedTickTarg : Int := int32 (hz * schedTickSecs)
def schedTickMax : Int := int32 (schedTickTarg hz + hz)

end macros

/-- The history that `sched_fork_thread` gives to a child. -/
def forkHistory (ticks : Int) : PctHistory := ⟨ticks, ticks, 0⟩

/-- The first half of `sched_pctcpu_update`, which shortens a history that is too long; `none` is a division by zero. -/
def pctcpuRescale (hz : Int) (ts : PctHistory) (t : Int) : Option PctHistory :=
  if int32 (t - ts.ltick) ≥ schedTickTarg hz then
    some { ts with ticks := 0, ftick := int32 (t - schedTickTarg hz) }
  else if int32 (t - ts.ftick) ≥ schedTickMax hz then
    let window := int32 (ts.ltick - ts.ftick)
    if window = 0 then none
    else some { ts with
      ticks := int32 (int32 (ts.ticks.tdiv window) * int32 (ts.ltick - int32 (t - schedTickTarg hz)))
      ftick := int32 (t - schedTickTarg hz) }
  else some ts

/-- `sched_pctcpu_update` at the time `t`. -/
def schedPctcpuUpdate (hz : Int) (ts : PctHistory) (t : Int) (run : Bool) : Option PctHistory :=
  (pctcpuRescale hz ts t).map fun ts =>
    { ts with
      ticks := if run then int32 (ts.ticks + int32 (int32 (t - ts.ltick) * 2 ^ schedTickShift)) else ts.ticks
      ltick := t }

/-- `FSHIFT` and `FSCALE` of the kernel's fixed-point numbers. -/
def fshift : Nat := 11
def fscale : Int := 2 ^ fshift

/-- `sched_pctcpu` at the time `t`; `min` compares two `u_int`s. -/
def schedPctcpu (hz : Int) (ts : PctHistory) (t : Int) (running : Bool) : Option (Int × PctHistory) :=
  (schedPctcpuUpdate hz ts t running).map fun ts =>
    if ts.ticks ≠ 0 then
      let rtick := int32 (min ((ts.ticks / 2 ^ schedTickShift).tdiv schedTickSecs % 2 ^ 32) (hz % 2 ^ 32))
      (int32 (fscale * (int32 (fscale * rtick)).tdiv hz) / 2 ^ fshift, ts)
    else (0, ts)

/-- The updates of a thread that was forked at `start`, each with its time and `run`. -/
def pctcpuHistory (hz start : Int) (updates : List (Int × Bool)) : Option PctHistory :=
  updates.foldlM (fun ts update => schedPctcpuUpdate hz ts update.1 update.2) (forkHistory start)

/-- The time of the last update. -/
def latest (start : Int) (updates : List (Int × Bool)) : Int := (updates.getLast?.map Prod.fst).getD start

/-- The times are `int`s that do not decrease, and a running thread is updated often enough. -/
def Timely (hz last : Int) : List (Int × Bool) → Prop
  | [] => True
  | (t, run) :: rest => last ≤ t ∧ t < 2 ^ 31 ∧ (run = true → t - last ≤ schedTickTarg hz) ∧ Timely hz t rest

instance Timely.decidable (hz : Int) : (last : Int) → (updates : List (Int × Bool)) → Decidable (Timely hz last updates)
  | _, [] => .isTrue trivial
  | last, (t, run) :: rest =>
    have := Timely.decidable hz t rest
    inferInstanceAs (Decidable (last ≤ t ∧ t < 2 ^ 31 ∧ (run = true → t - last ≤ schedTickTarg hz) ∧ Timely hz t rest))

/-- From one update to the next the difference of the times is an `int`. -/
def Close (last : Int) : List (Int × Bool) → Prop
  | [] => True
  | (t, _) :: rest => t - last < 2 ^ 31 ∧ Close t rest

instance Close.decidable : (last : Int) → (updates : List (Int × Bool)) → Decidable (Close last updates)
  | _, [] => .isTrue trivial
  | last, (t, _) :: rest =>
    have := Close.decidable t rest
    inferInstanceAs (Decidable (t - last < 2 ^ 31 ∧ Close t rest))

/-- A history in order: a window below the maximum, and in it at most a full use of the CPU. -/
structure PctHistory.Formed (hz : Int) (ts : PctHistory) : Prop where
  first : -2 ^ 31 ≤ ts.ftick
  order : ts.ftick ≤ ts.ltick
  last : ts.ltick < 2 ^ 31
  window : ts.ltick - ts.ftick < schedTickMax hz
  nonneg : 0 ≤ ts.ticks
  full : ts.ticks ≤ (ts.ltick - ts.ftick) * 2 ^ schedTickShift

section update
variable {hz t start : Int} {ts : PctHistory} {run : Bool}

theorem schedTickTarg_eq (positive : 0 < hz) (small : hz ≤ 190650) : schedTickTarg hz = 10 * hz := by
  unfold schedTickTarg schedTickSecs
  rw [int32_eq (by omega) (by omega)]
  omega

theorem schedTickMax_eq (positive : 0 < hz) (small : hz ≤ 190650) : schedTickMax hz = 11 * hz := by
  unfold schedTickMax
  rw [schedTickTarg_eq positive small, int32_eq (by omega) (by omega)]
  omega

theorem forkHistory_formed (positive : 0 < hz) (small : hz ≤ 190650) (low : -2 ^ 31 ≤ start) (high : start < 2 ^ 31) :
    (forkHistory start).Formed hz := by
  refine ⟨low, le_rfl, high, ?_, le_rfl, ?_⟩
  · rw [schedTickMax_eq positive small]
    simp only [forkHistory]
    omega
  · simp [forkHistory]

/-- No tick of a history counts for more than a full use of the CPU, and no part of it either. -/
theorem rescaled_le {ticks window : Int} (nonneg : 0 ≤ ticks) (full : ticks ≤ window * 1024) (long : 0 < window) :
    (0 ≤ ticks.tdiv window ∧ ticks.tdiv window ≤ 1024) ∧
      ∀ kept, 0 ≤ kept → 0 ≤ ticks.tdiv window * kept ∧ ticks.tdiv window * kept ≤ kept * 1024 := by
  have least : 0 ≤ ticks.tdiv window := Int.tdiv_nonneg nonneg long.le
  have most : ticks.tdiv window ≤ 1024 := by
    rw [Int.tdiv_eq_ediv_of_nonneg nonneg]
    exact Int.ediv_le_of_le_mul long (by omega)
  refine ⟨⟨least, most⟩, fun kept some => ⟨Int.mul_nonneg least some, ?_⟩⟩
  rw [mul_comm kept]
  exact Int.mul_le_mul_of_nonneg_right most some

/-- After the first half the window ends at `t` and is short enough, and what is left of the use fits
into the part of it before the last update. -/
theorem pctcpuRescale_fits (positive : 0 < hz) (small : hz ≤ 190650) (formed : ts.Formed hz) (later : ts.ltick ≤ t)
    (high : t < 2 ^ 31) (close : t - ts.ltick < 2 ^ 31) :
    ∃ ts', pctcpuRescale hz ts t = some ts' ∧ ts'.ltick = ts.ltick ∧ -2 ^ 31 ≤ ts'.ftick ∧ ts'.ftick ≤ t ∧
      t - ts'.ftick < 11 * hz ∧ 0 ≤ ts'.ticks ∧
      ((ts'.ticks = 0 ∧ ts'.ftick = t - 10 * hz) ∨ (ts'.ftick ≤ ts.ltick ∧ ts'.ticks ≤ (ts.ltick - ts'.ftick) * 1024)) := by
  obtain ⟨first, order, last, window, nonneg, full⟩ := formed
  rw [schedTickMax_eq positive small] at window
  rw [schedTickShift] at full
  unfold pctcpuRescale
  rw [schedTickTarg_eq positive small, schedTickMax_eq positive small, int32_eq (by omega) close]
  split
  · rename_i long
    rw [int32_eq (by omega) (by omega)]
    exact ⟨_, rfl, rfl, by dsimp only; omega, by dsimp only; omega, by dsimp only; omega, le_rfl, .inl ⟨rfl, rfl⟩⟩
  · rename_i short
    rw [int32_eq (x := t - ts.ftick) (by omega) (by omega)]
    split
    · rename_i exceeds
      have kept : t - 10 * hz < ts.ltick := by omega
      -- The window is longer than a second here.
      have divisor : int32 (ts.ltick - ts.ftick) = ts.ltick - ts.ftick := int32_eq (by omega) (by omega)
      obtain ⟨quotient, parts⟩ := rescaled_le nonneg full (by omega)
      obtain ⟨least, most⟩ := parts (ts.ltick - (t - 10 * hz)) (by omega)
      rw [divisor, if_neg (by omega), int32_eq (x := t - 10 * hz) (by omega) (by omega),
        int32_eq (x := ts.ltick - (t - 10 * hz)) (by omega) (by omega),
        int32_eq (x := ts.ticks.tdiv _) (by omega) (by omega), int32_eq (by omega) (by omega)]
      exact ⟨_, rfl, rfl, by dsimp only; omega, by dsimp only; omega, by dsimp only; omega, least, .inr ⟨kept.le, most⟩⟩
    · exact ⟨ts, rfl, rfl, first, by omega, by omega, nonneg, .inr ⟨order, full⟩⟩

/-- An update of a history in order leaves one. -/
theorem schedPctcpuUpdate_formed (positive : 0 < hz) (small : hz ≤ 190650) (formed : ts.Formed hz) (later : ts.ltick ≤ t)
    (high : t < 2 ^ 31) (often : run = true → t - ts.ltick ≤ schedTickTarg hz) (close : t - ts.ltick < 2 ^ 31) :
    ∃ ts', schedPctcpuUpdate hz ts t run = some ts' ∧ ts'.ltick = t ∧ ts'.Formed hz := by
  obtain ⟨r, rescaled, ltick, first, order, window, nonneg, used⟩ :=
    pctcpuRescale_fits positive small formed later high close
  have low : -2 ^ 31 ≤ ts.ltick := formed.first.trans formed.order
  rw [schedTickTarg_eq positive small] at often
  have shift : (2 : Int) ^ schedTickShift = 1024 := rfl
  have unused : r.ticks ≤ (t - r.ftick) * 1024 := by
    rcases used with ⟨none, _⟩ | ⟨_, part⟩ <;> omega
  have total (on : run = true) : r.ticks + (t - ts.ltick) * 1024 ≤ (t - r.ftick) * 1024 := by
    have gap := often on
    rcases used with ⟨none, from_⟩ | ⟨_, part⟩ <;> omega
  have sum (on : run = true) : int32 (r.ticks + int32 (int32 (t - r.ltick) * 2 ^ schedTickShift)) =
      r.ticks + (t - ts.ltick) * 1024 := by
    have gap := often on
    have most := total on
    rw [ltick, shift, int32_eq (x := t - ts.ltick) (by omega) (by omega), int32_eq (x := (t - ts.ltick) * 1024) (by omega) (by omega),
      int32_eq (by omega) (by omega)]
  unfold schedPctcpuUpdate
  rw [rescaled]
  refine ⟨_, rfl, rfl, first, order, high, ?_, ?_, ?_⟩
  · rw [schedTickMax_eq positive small]
    exact window
  · dsimp only
    split
    · rename_i on
      rw [sum on]
      omega
    · exact nonneg
  · dsimp only
    split
    · rename_i on
      rw [sum on, shift]
      exact total on
    · rw [shift]
      exact unused

/-- `sched_pctcpu` never reports more than the whole CPU. -/
theorem schedPctcpu_le (positive : 0 < hz) (small : hz ≤ 190650) (formed : ts.Formed hz) (later : ts.ltick ≤ t)
    (high : t < 2 ^ 31) (often : run = true → t - ts.ltick ≤ schedTickTarg hz) (close : t - ts.ltick < 2 ^ 31) :
    ∃ pctcpu ts', schedPctcpu hz ts t run = some (pctcpu, ts') ∧ 0 ≤ pctcpu ∧ pctcpu ≤ fscale := by
  obtain ⟨r, updated, _, formed'⟩ := schedPctcpuUpdate_formed positive small formed later high often close
  have scale : fscale = 2048 := rfl
  unfold schedPctcpu
  rw [updated, Option.map_some]
  split
  · refine ⟨_, r, rfl, ?_⟩
    have least : 0 ≤ (r.ticks / 2 ^ schedTickShift).tdiv schedTickSecs % 2 ^ 32 := Int.emod_nonneg _ (by decide)
    rw [Int.emod_eq_of_lt positive.le (by omega)]
    generalize (r.ticks / 2 ^ schedTickShift).tdiv schedTickSecs % 2 ^ 32 = ticks at least
    obtain ⟨rtick, is⟩ : ∃ rtick, rtick = min ticks hz := ⟨_, rfl⟩
    have bounds : 0 ≤ rtick ∧ rtick ≤ hz := by omega
    have share : (2048 * rtick).tdiv hz ≤ 2048 := by
      rw [Int.tdiv_eq_ediv_of_nonneg (by omega)]
      exact Int.ediv_le_of_le_mul positive (by omega)
    have nonneg : 0 ≤ (2048 * rtick).tdiv hz := Int.tdiv_nonneg (by omega) positive.le
    have shift : (2 : Int) ^ fshift = 2048 := rfl
    rw [← is, scale, shift, int32_eq (x := rtick) (by omega) (by omega), int32_eq (x := 2048 * rtick) (by omega) (by omega),
      int32_eq (by omega) (by omega)]
    omega
  · exact ⟨0, r, rfl, le_rfl, by decide⟩

/-- A sequence of updates of a history in order leaves one. -/
theorem pctcpuHistory_formed (positive : 0 < hz) (small : hz ≤ 190650) (updates : List (Int × Bool)) (formed : ts.Formed hz)
    (timely : Timely hz ts.ltick updates) (close : Close ts.ltick updates) :
    ∃ ts', updates.foldlM (fun ts update => schedPctcpuUpdate hz ts update.1 update.2) ts = some ts' ∧
      ts'.ltick = latest ts.ltick updates ∧ ts'.Formed hz := by
  induction updates generalizing ts with
  | nil => exact ⟨ts, rfl, rfl, formed⟩
  | cons update rest ih =>
    obtain ⟨t, run⟩ := update
    obtain ⟨later, high, often, timely⟩ := timely
    obtain ⟨near, close⟩ := close
    obtain ⟨r, updated, rfl, formed'⟩ := schedPctcpuUpdate_formed positive small formed later high often near
    obtain ⟨ts', ran, last, formed''⟩ := ih formed' timely close
    refine ⟨ts', ?_, ?_, formed''⟩
    · rw [List.foldlM_cons, updated]
      exact ran
    · rw [last]
      cases rest <;> rfl

end update

/-- Every update from the fork on finds and leaves a history in order. -/
theorem pctcpu_history_formed (hz start : Int) (updates : List (Int × Bool)) (positive : 0 < hz) (small : hz ≤ 190650)
    (low : -2 ^ 31 ≤ start) (high : start < 2 ^ 31) (timely : Timely hz start updates) (close : Close start updates) :
    ∃ ts, pctcpuHistory hz start updates = some ts ∧ ts.ftick ≤ ts.ltick ∧ 0 ≤ ts.ticks ∧
      ts.ticks ≤ (ts.ltick - ts.ftick) * 2 ^ schedTickShift ∧ latest start updates - ts.ftick < schedTickMax hz := by
  obtain ⟨ts, ran, last, formed⟩ :=
    pctcpuHistory_formed positive small updates (forkHistory_formed positive small low high) timely close
  refine ⟨ts, ran, formed.order, formed.nonneg, formed.full, ?_⟩
  have window := formed.window
  rw [last] at window
  exact window

/-- A thread runs until its history is rescaled, and then sleeps until nothing of it counts. -/
def runsAndSleeps : List (Int × Bool) := [(6000, true), (11500, true), (30000, false)]

theorem pctcpu_history_rescaled :
    ∃ ts, pctcpuHistory 1000 0 runsAndSleeps = some ts ∧ ts.ticks ≤ (ts.ltick - ts.ftick) * 2 ^ schedTickShift := by
  obtain ⟨ts, ran, _, _, full, _⟩ := pctcpu_history_formed 1000 0 runsAndSleeps (by decide) (by decide) (by decide) (by decide)
    (by decide +kernel) (by decide +kernel)
  exact ⟨ts, ran, full⟩

/-- A thread sleeps for more than `2 ^ 31` ticks, and then runs. -/
def sleepsLong : List (Int × Bool) :=
  (2000000000, false) :: (List.range 210).map fun i => (2000009999 + 9999 * Int.ofNat i, true)

/-- The length of the sleep is taken for a negative one, and the history is not shortened any more. -/
theorem pctcpu_history_overflows :
    ¬ ∀ (hz start : Int) (updates : List (Int × Bool)), 0 < hz → -2 ^ 31 ≤ start → start < 2 ^ 31 → Timely hz start updates →
      ∃ ts, pctcpuHistory hz start updates = some ts ∧ ts.ftick ≤ ts.ltick ∧ 0 ≤ ts.ticks ∧
        ts.ticks ≤ (ts.ltick - ts.ftick) * 2 ^ schedTickShift ∧ latest start updates - ts.ftick < schedTickMax hz := by
  intro claimed
  have result : pctcpuHistory 1000 (-1000000000) sleepsLong = some ⟨2002099790, -1000000000, -2144782336⟩ := by decide +kernel
  obtain ⟨ts, ran, _, nonneg, _, _⟩ := claimed 1000 (-1000000000) sleepsLong (by decide) (by decide) (by decide)
    (by decide +kernel)
  rw [result] at ran
  cases ran
  exact absurd nonneg (by decide)

end SfqSched
