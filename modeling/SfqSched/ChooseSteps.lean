import SfqSched.SchedSteps
import SfqSched.PickView

namespace SfqSched
open State Function

section pick
variable {C : Conds} {s s' : State} {q : Gid} {e : EntId}

theorem View.Core.vacant {v : View} (core : v.Core []) : v.vacant := by
  intro q
  cases there : v.curr q with
  | none => rfl
  | some e => simp [core.curr] at there

theorem pickNextEntity_reaches (inv : Inv C s [] none) (run : pickNextEntity s q = some (e, s')) :
    Reaches C s s' [] s.view.roster := by
  have view := pickNextEntity_view run
  exact ⟨.flow inv (.pick q e run inv.core.vacant), inv.of_bones (by rw [view]), by rw [view], by rw [view]⟩

theorem pssPickFrom_reaches {fuel : Nat} (inv : Inv C s [] none) (run : pssPickFrom s fuel q = some (e, s')) :
    Reaches C s s' [] s.view.roster := by
  induction fuel generalizing s q with
  | zero => cases run
  | succ fuel ih =>
    unfold pssPickFrom at run
    split at run
    · cases run
    · rename_i se a step
      have first := pickNextEntity_reaches inv step
      split at run
      · cases run
        exact first
      · have second := ih first.inv run
        rw [first.roster] at second
        exact first.trans second

theorem pssPickNextThread_reaches {picked : Option Tid} (inv : Inv C s [] none)
    (run : pssPickNextThread s = some (picked, s')) :
    Reaches C s s' [] s.view.roster ∧ ∀ t, picked = some t → s'.view.exited t = false := by
  unfold pssPickNextThread at run
  split at run
  · cases run
    exact ⟨.refl inv, by simp⟩
  · obtain ⟨⟨e, a⟩, walk, run⟩ := Option.bind_eq_some_iff.mp run
    have reaches := pssPickFrom_reaches inv walk
    dsimp only at run
    split at run
    · rename_i t _
      split at run
      · cases run
      · rename_i alive
        cases run
        refine ⟨reaches, ?_⟩
        rintro u ⟨⟩
        simpa using alive
    · cases run

/-- The head of the first queue is one of the entries. -/
theorem firstQueue_mem {l : List RunqEntry} {best : Option RunqEntry} {entry : RunqEntry}
    (found : l.foldl (fun best entry =>
      match best with
      | none => some entry
      | some b => if entry.index < b.index then some entry else best) best = some entry) :
    best = some entry ∨ entry ∈ l := by
  induction l generalizing best with
  | nil => exact .inl found
  | cons a rest ih =>
    rcases ih found with here | later
    · dsimp only at here
      split at here
      · cases here
        exact .inr (List.mem_cons_self ..)
      · split at here
        · cases here
          exact .inr (List.mem_cons_self ..)
        · exact .inl here
    · exact .inr (List.mem_cons_of_mem _ later)

theorem runqChoose_mem {realtime : List RunqEntry} {t : Tid} (run : runqChoose realtime = some t) :
    queuedIn realtime t := by
  obtain ⟨entry, found, rfl⟩ := Option.map_eq_some_iff.mp run
  rcases firstQueue_mem found with never | member
  · cases never
  · exact ⟨entry, member, rfl⟩

end pick

/-- A live thread that fits may be put on the free CPU. -/
theorem Roster.Ok.dispatch {r r' : Roster} {t : Nat} (ok : r.Ok none) (inside : t < r.nthreads)
    (live : r.exited t = false) (joined : r.cls t ≠ .idle → r.joined t)
    (same : r' = { r.setState t .running with curthread := t }) : r'.Ok (some t) := by
  subst same
  have fits := ok.live t inside live
  have beside : Roster.Beside r { r.setState t .running with curthread := t } t := by
    constructor <;> intros <;> simp_all [Roster.setState]
  refine ok.replace beside (ok.counted.congr rfl rfl rfl rfl) inside (fun _ => ?_) (fun gone => ?_) (fun u other => ?_)
  · exact {
      running := by simp [Roster.setState]
      idle := fits.idle
      joined := fun other => by simp [Roster.setState, joined other]
      started := fits.started
      only := fits.only
      idleTd := fits.idleTd }
  · simp [Roster.setState, live] at gone
  · simp [Ne.symm other]

section choose
variable {C : Conds} {s s' : State}

/-- The switch to a thread that a class may activate. -/
theorem dispatch_stands {t : Tid} (stands : Stands C s none) (live : s.view.exited t = false)
    (inside : s.view.cls t = .idle → t < s.view.nthreads) {a : State}
    (run : classActivateThread (s.view.cls t) s t = some a) :
    Path C s { setTdState a t .running with curthread := t } ∧
      Stands C { setTdState a t .running with curthread := t } (some t) := by
  obtain ⟨first, joined⟩ := classActivateThread_reaches stands.inv run
  have inside' : t < s.view.nthreads := by
    by_cases idle : s.view.cls t = .idle
    · exact inside idle
    · exact stands.inv.core.valid _ (joined idle)
  have cls : a.view.cls = s.view.cls := congrArg Roster.cls first.roster
  have same : a.view.joined (.thread t) = s.view.joined (.thread t) := congrFun (congrArg Roster.joined first.roster) t
  have second : Reaches C a (setTdState a t .running) (cpuChain s t) (a.view.roster.setState t .running) := by
    refine setTdState_reaches first.inv ?_
    by_cases idle : s.view.cls t = .idle
    · exact .inl (by simp [cls, idle])
    · exact .inr (.inl (same ▸ joined idle))
  have quiet : Quiet (setTdState a t .running) { setTdState a t .running with curthread := t } :=
    ⟨rfl, ⟨rfl, rfl, rfl, rfl, fun _ => rfl, fun _ => rfl, fun _ => rfl, fun _ _ => rfl, .still rfl rfl rfl, fun _ => id⟩,
      rfl, rfl, rfl, rfl, rfl, fun _ => rfl, fun _ => Iff.rfl,
      fun _ _ => rfl, fun _ _ => ⟨Iff.rfl, fun _ => rfl⟩⟩
  have roster : ({ setTdState a t .running with curthread := t } : State).view.roster =
      { s.view.roster.setState t .running with curthread := t } := by
    have inner : (setTdState a t .running).view.roster = s.view.roster.setState t .running := by
      rw [second.roster, first.roster]
      simp [Roster.setState]
    rw [← inner]
    rfl
  have chain : currentOn { setTdState a t .running with curthread := t } (some t) = cpuChain s t := by
    refine currentOn_congr (c := some t) (second.frame.trans first.frame) fun u _ => ?_
    exact congrFun (congrArg Roster.cls roster) u
  refine ⟨first.path.trans (second.path.trans (.quiet second.inv quiet)), ?_, ?_⟩
  · rw [chain]
    exact second.inv.of_bones rfl
  · exact stands.roster.dispatch inside' live joined roster

theorem chooseThread_stands (stands : Stands C s none) (run : chooseThread s = some s') :
    Path C s s' ∧ Stands C s' (some s'.curthread) := by
  have first : Path C s (s.emit .choose) := .flow stands.inv (.choose rfl)
  have stands₁ : Stands C (s.emit .choose) none := ⟨stands.inv.of_bones rfl, stands.roster⟩
  obtain ⟨⟨t, a⟩, chosen, rfl⟩ := Option.map_eq_some_iff.mp run
  unfold schedChoose at chosen
  dsimp only at chosen
  split at chosen
  · rename_i u found
    obtain ⟨b, step, same⟩ := Option.map_eq_some_iff.mp chosen
    cases same
    have onRunq := stands₁.inv.core.realtime t (runqChoose_mem found)
    have joined := (stands₁.inv.core.onRunq _ onRunq).1
    have inside : t < (s.emit .choose).view.nthreads := stands₁.inv.core.valid _ joined
    have live : (s.emit .choose).view.exited t = false := by
      by_contra gone
      have apart := stands₁.roster.dead t inside (by simpa [View.roster] using gone)
      exact Bool.noConfusion (apart.symm.trans joined)
    obtain ⟨path, settled⟩ := dispatch_stands stands₁ live (fun _ => inside) step
    exact ⟨first.trans path, settled⟩
  · obtain ⟨⟨picked, b⟩, walk, chosen⟩ := Option.bind_eq_some_iff.mp chosen
    obtain ⟨c, step, same⟩ := Option.map_eq_some_iff.mp chosen
    cases same
    obtain ⟨reaches, alive⟩ := pssPickNextThread_reaches stands₁.inv walk
    have stands₂ : Stands C b none := ⟨reaches.inv, reaches.roster ▸ stands₁.roster⟩
    have idle := stands₂.roster.idle
    have live : b.view.exited (picked.getD b.view.idlethread) = false := by
      cases picked with
      | none =>
        have one : b.view.idlethread = 1 := idle.1
        rw [Option.getD_none, one]
        exact idle.2.2.1
      | some t => exact alive t rfl
    have inside : b.view.cls (picked.getD b.view.idlethread) = .idle →
        picked.getD b.view.idlethread < b.view.nthreads := by
      intro isIdle
      by_contra outside
      have unborn := (stands₂.roster.unborn _ (Nat.le_of_not_lt outside)).2.1
      have same : b.view.cls (picked.getD b.view.idlethread) = .pss := unborn
      exact SchedClass.noConfusion (isIdle.symm.trans same)
    obtain ⟨path, settled⟩ := dispatch_stands stands₂ live inside step
    exact ⟨first.trans (reaches.path.trans path), settled⟩

end choose
end SfqSched
