import SfqSched.DequeueWalk

namespace SfqSched
open State Function

section
variable {C : Conds} {s s' : State} {L : List EntId} {d : Option EntId} {e : EntId} {flags : Nat}

/-- What `put_prev_entity` does to the thread states: a joined thread is queued again. -/
def Roster.putBack (r : Roster) (e : EntId) : Roster :=
  match e with
  | .thread t => if r.joined t then r.setState t .runq else r
  | .group _ => r

/-- Going back into a timeline leaves every thread in its class. -/
theorem Roster.putBack_cls (r : Roster) (e : EntId) : (r.putBack e).cls = r.cls := by
  cases e with
  | group g => rfl
  | thread t =>
    unfold Roster.putBack
    dsimp only
    split <;> rfl

theorem runnable_state (v : View) (t : Tid) (b : Bool) :
    (v.runnable (.thread t) b).roster = v.roster.setState t .runq := by
  have state : (fun u => if t = u then .runq else v.tdState u) = update v.tdState t .runq := by
    funext u
    simp only [update_apply, eq_comm]
  simp [View.roster, View.runnable, Roster.setState, state]

theorem putPrevEntity_inv (inv : Inv C s (e :: L) d) (others : e ∉ L) (pss : e.pss s.view.cls)
    (run : putPrevEntity s (s.view.sfq e) e flags = some s') :
    Inv C s' L d ∧ s'.view.roster = s.view.roster.putBack e ∧ s'.view.frame = s.view.frame := by
  rcases putPrevEntity_view inv.core.hier run with ⟨apart, look⟩ | ⟨joined, off, b, boost, look⟩
  · refine ⟨⟨?_, fun positive => ?_, ?_⟩, ?_, ?_⟩
    · rw [look]
      exact inv.core.released others apart
    · rw [look]
      exact (inv.tight positive).released
    · rw [look]
      exact inv.filled
    · cases e with
      | group g => rw [look]; rfl
      | thread t =>
        have out : s.view.roster.joined t = false := apart
        simp only [Roster.putBack, out]
        rw [look]
        rfl
    · rw [look]
      rfl
  · refine ⟨⟨?_, fun positive => ?_, ?_⟩, ?_, ?_⟩
    · rw [look]
      exact inv.core.putBack others joined off pss boost
    · rw [look]
      exact (inv.tight positive).putBack inv.core
    · rw [look]
      exact inv.filled
    · cases e with
      | group g =>
        rw [look]
        simp [View.roster, Roster.putBack, View.setCurr, View.enter, View.runnable]
      | thread t =>
        have inside : s.view.roster.joined t := joined
        simp only [Roster.putBack, inside, if_true]
        rw [look, ← runnable_state s.view t b]
        rfl
    · rw [look]
      rfl

theorem pssPutPrevWalk_inv {chain : List EntId} (inv : Inv C s chain d) (nodup : chain.Nodup)
    (pss : ∀ e ∈ chain, e.pss s.view.cls) (run : pssPutPrevWalk s chain flags = some s') :
    Inv C s' [] d ∧ s'.view.roster = chain.foldl Roster.putBack s.view.roster ∧
      s'.view.frame = s.view.frame := by
  induction chain generalizing s with
  | nil =>
    cases run
    exact ⟨inv, rfl, rfl⟩
  | cons e rest ih =>
    obtain ⟨others, nodup⟩ := List.nodup_cons.mp nodup
    unfold pssPutPrevWalk at run
    cases step : putPrevEntity s (s.view.sfq e) e flags with
    | none => simp [step] at run
    | some s₁ =>
      simp only [view_sfq, step] at run
      obtain ⟨inv₁, roster, frame⟩ := putPrevEntity_inv inv others (pss e (List.mem_cons_self ..)) step
      have cls : s₁.view.cls = s.view.cls := (congrArg Roster.cls roster).trans (Roster.putBack_cls ..)
      obtain ⟨inv₂, roster₂, frame₂⟩ :=
        ih inv₁ nodup (fun x member => cls ▸ pss x (List.mem_cons_of_mem _ member)) run
      exact ⟨inv₂, by rw [roster₂, roster]; rfl, frame₂.trans frame⟩

/-- The entities above the first of a chain are groups. -/
theorem chain_groups (hier : s.view.Hier) {e : EntId} {rest : List EntId}
    (links : Chain s.view.parent (s.view.parent e) rest) : ∀ p ∈ rest, ∃ g, p = .group g := by
  refine links.all (fun a at_a => ?_) fun a b _ up => ?_
  · exact ⟨_, (hier.parent_some at_a).2.2⟩
  · exact ⟨_, (hier.parent_some up).2.2⟩

theorem putBack_groups {rest : List EntId} (groups : ∀ p ∈ rest, ∃ g, p = .group g) (r : Roster) :
    rest.foldl Roster.putBack r = r := by
  induction rest generalizing r with
  | nil => rfl
  | cons p rest ih =>
    obtain ⟨g, rfl⟩ := groups p (List.mem_cons_self ..)
    exact ih (fun x member => groups x (List.mem_cons_of_mem _ member)) r

/-- The chain of a thread: its own entity, then groups, each once. -/
theorem thread_chain (hier : s.view.Hier) (t : Tid) :
    ∃ rest, walkup s (some (.thread t)) = .thread t :: rest ∧
      Chain s.view.parent (s.view.parent (.thread t)) rest ∧
      (walkup s (some (.thread t))).Nodup ∧ ∀ p ∈ rest, ∃ g, p = .group g := by
  have links := hier.chain (e := .thread t) (Nat.lt_succ_self _)
  have nodup := links.nodup hier.rank_falls
  rw [show walkup s (some (.thread t)) = .thread t :: _ from rfl] at links nodup ⊢
  cases links with
  | link links => exact ⟨_, rfl, links, nodup, chain_groups hier links⟩

theorem pssPutPrevThread_reaches {t : Tid} (inv : Inv C s (walkup s (some (.thread t))) none)
    (pss : s.view.cls t = .pss) (run : pssPutPrevThread s t flags = some s') :
    Reaches C s s' [] (s.view.roster.putBack (.thread t)) := by
  have micro : Flow C s s' := .putPrev t flags run pss inv
  obtain ⟨a, walk, done⟩ := Option.map_eq_some_iff.mp run
  obtain ⟨rest, eq, _, nodup, groups⟩ := thread_chain inv.core.hier t
  have inv' := inv
  rw [eq] at walk nodup inv'
  have members (e : EntId) (member : e ∈ EntId.thread t :: rest) : e.pss s.view.cls := by
    rcases List.mem_cons.mp member with rfl | above
    · exact pss
    · obtain ⟨g, rfl⟩ := groups e above
      trivial
  obtain ⟨inv₁, roster, frame⟩ := pssPutPrevWalk_inv inv' nodup members walk
  have view : s'.view = a.view := by rw [← done]; rfl
  refine ⟨.flow inv micro, inv₁.of_bones (by rw [view]), ?_, by rw [view]; exact frame⟩
  rw [view, roster, List.foldl_cons, putBack_groups groups]

theorem activateEntity_inv (inv : Inv C s L d) (run : activateEntity s (s.view.sfq e) e = some s') :
    Inv C s' (e :: L) d ∧ s.view.joined e ∧ s'.view.joined = s.view.joined ∧
      s'.view.roster = s.view.roster ∧ s'.view.frame = s.view.frame := by
  obtain ⟨joined, there, vacant, look⟩ := activateEntity_view inv.core run
  have pss := (inv.core.member _ _ ((inv.core.onSfq e).mp there)).2.1
  refine ⟨⟨?_, fun positive => ?_, ?_⟩, joined, ?_, ?_, ?_⟩
  · rw [look]
    exact inv.core.activated pss vacant
  · rw [look]
    exact (inv.tight positive).activated
  · rw [look]
    exact inv.filled
  all_goals rw [look]; rfl

theorem pssActivateWalk_inv {chain : List EntId} (inv : Inv C s L d) (run : pssActivateWalk s chain = some s') :
    Inv C s' (chain ++ L) d ∧ (∀ e ∈ chain, s.view.joined e) ∧ s'.view.joined = s.view.joined ∧
      s'.view.roster = s.view.roster ∧ s'.view.frame = s.view.frame := by
  induction chain generalizing s L with
  | nil =>
    cases run
    exact ⟨inv, by simp, rfl, rfl, rfl⟩
  | cons e rest ih =>
    unfold pssActivateWalk at run
    cases step : activateEntity s (s.view.sfq e) e with
    | none => simp [step] at run
    | some s₁ =>
      simp only [view_sfq, step] at run
      obtain ⟨inv₁, first, joined, roster, frame⟩ := activateEntity_inv inv step
      obtain ⟨inv₂, others, joined₂, roster₂, frame₂⟩ := ih inv₁ run
      refine ⟨⟨inv₂.core.swap (by simp; tauto), inv₂.tight, inv₂.filled⟩, ?_, joined₂.trans joined, roster₂.trans roster,
        frame₂.trans frame⟩
      intro x member
      rcases List.mem_cons.mp member with rfl | above
      · exact first
      · exact joined ▸ others x above

theorem pssActivateThread_reaches {t : Tid} (inv : Inv C s [] none) (pss : s.view.cls t = .pss)
    (run : pssActivateThread s t = some s') :
    Reaches C s s' (walkup s (some (.thread t))) (s.view.roster.setState t .running) ∧
      s.view.joined (.thread t) := by
  have micro : Flow C s s' := .activate t run pss inv
  obtain ⟨a, walk, done⟩ := Option.map_eq_some_iff.mp run
  obtain ⟨inv₁, members, _, roster, frame⟩ := pssActivateWalk_inv inv walk
  rw [List.append_nil] at inv₁
  have view : s'.view = { a.view with tdState := update a.view.tdState t .running } := by
    rw [← done]
    simp
  refine ⟨⟨.flow inv micro, inv₁.of_bones (by rw [view]; rfl), ?_, by rw [view]; exact frame⟩, ?_⟩
  · rw [← roster, view]
    rfl
  · obtain ⟨rest, eq, _⟩ := thread_chain inv.core.hier t
    exact members _ (by rw [eq]; exact List.mem_cons_self ..)

end
end SfqSched
