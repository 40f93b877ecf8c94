import SfqSched.SwitchTotal

namespace SfqSched
open State Function

section offAndOn
variable {C : Conds} {s : State} {t : Tid} {clock : State → State}

end offAndOn

section move
variable {C : Conds} {s : State} {t : Tid} {g : Gid}

end move

section change
variable {C : Conds} {s : State} {t : Tid}

end change

section add
variable {C : Conds} {s : State} {L : List EntId} {t : Tid}

end add

section priority
variable {s : State} {t : Tid}

end priority

section step
variable {C : Conds} {s : State}

end step

theorem run_ready {k : Kernel} {tun : Tunables} {ops : List Op} {s : State} (ran : run k tun ops = some s)
    (asked : ∀ g, g ≠ 0 → Op.setShares g 0 ∉ ops)
    (kept : ∀ before t priClass after a, ops = before ++ .schedClass t priClass :: after →
      run k tun before = some a → ¬marksApart a t priClass) : Ready .marked s := by
  have runs := run_marked ran asked kept
  exact ⟨runs.settled, (run_seated ops ran).1, (runs.path.points trivial trivial).kept (bootQueues_pointed k tun), runs.led⟩

-- the idle thread, moved to `pss_class`, is on no queue, so it cannot be activated when nothing else runs
example : (run plainKernel {} [.schedClass 1 .timeshare, .sleep 0]).isNone := by decide +kernel

end SfqSched
