import SfqSched.ChooseSteps

namespace SfqSched
open State Function

/-- What the queues must satisfy while `current` lists their current entities: they and the
accounts agree, weights are positive, a group is joined while its queue is not empty, a
candidate stands on its queue and the cached leftmost entity is the leftmost. -/
structure QueueFits (s : State) (current : List EntId) : Prop where
  core : s.view.Core current
  tight : s.view.Tight none
  seats : ∀ c q e, s.books.candidate c q = some e → s.view.joined e ∧ e.pss s.view.cls ∧ s.view.sfq e = q
  leftmost : ∀ q, s.books.leftmost q = (s.books.seq q).head?

section hierarchy
variable {v : View} {L : List EntId} {e p : EntId} {q : Nat}

theorem View.Core.parent_joined (core : v.Core L) (tight : v.Tight none) (joined : v.joined e)
    (pss : e.pss v.cls) (up : v.parent e = some p) : v.joined p ∧ p.pss v.cls := by
  obtain ⟨pos, inside, rfl⟩ := core.hier.parent_some up
  have holds := (core.accounts (v.sfq e)).holds joined pss
  exact ⟨(tight.groups _ pos inside (by simp)).mpr holds.2, trivial⟩

/-- Work anywhere below keeps the root's queue from being empty. -/
theorem View.Core.root_busy (core : v.Core L) (tight : v.Tight none) :
    ∀ n e, v.sfq e ≤ n → v.joined e → e.pss v.cls → 0 < v.nr 0 := by
  intro n
  induction n with
  | zero =>
    intro e low joined pss
    have root : v.sfq e = 0 := Nat.le_zero.mp low
    exact root ▸ ((core.accounts (v.sfq e)).holds joined pss).2
  | succ n ih =>
    intro e low joined pss
    cases up : v.parent e with
    | none =>
      have root := core.hier.parent_none.mp up
      exact root ▸ ((core.accounts (v.sfq e)).holds joined pss).2
    | some p =>
      obtain ⟨joined', pss'⟩ := core.parent_joined tight joined pss up
      obtain ⟨pos, _, rfl⟩ := core.hier.parent_some up
      have lower := core.hier.lower (v.sfq e)
      exact ih _ (by omega) joined' pss'

/-- A queue that counts an entity has one, and when none is current it is in the timeline. -/
theorem View.Core.occupied (core : v.Core []) (busy : 0 < v.nr q) : ∃ e, e ∈ v.timeline q := by
  obtain ⟨m, mem, _, count⟩ := core.accounts q
  obtain ⟨e, inside⟩ := Finset.card_pos.mp (count ▸ busy)
  obtain ⟨joined, pss, place⟩ := (mem e).mp inside
  rcases core.covered e joined pss with there | current
  · exact ⟨e, place ▸ there⟩
  · rw [core.vacant] at current
    cases current

/-- Going up a chain, every queue is older than the one before. -/
theorem View.Hier.queues_apart (hier : v.Hier) {o : Option EntId} {l : List EntId} (links : Chain v.parent o l) :
    l.Pairwise fun a b => v.sfq a ≠ v.sfq b := by
  have falls (a b : EntId) (up : v.parent a = some b) : v.sfq b < v.sfq a := by
    obtain ⟨pos, _, rfl⟩ := hier.parent_some up
    have lower := hier.lower (v.sfq a)
    omega
  induction links with
  | root => exact .nil
  | @link a rest above ih =>
    refine .cons (fun b member => ?_) ih
    exact Nat.ne_of_gt (above.rank_lt falls b member)

end hierarchy

section activate
variable {s s' : State} {L : List EntId} {e : EntId} {t : Tid}

theorem erase_head (seq : List EntId) (e : EntId) :
    (seq.erase e).head? = if seq.head? = some e then rbNext seq e else seq.head? := by
  cases seq with
  | nil => simp
  | cons a rest =>
    by_cases same : a = e
    · subst same
      simp [rbNext]
    · simp [same]

/-- `activate_entity` succeeds on a joined entity whose queue has no current one. -/
theorem activateEntity_runs (core : s.view.Core L) (joined : s.view.joined e) (pss : e.pss s.view.cls)
    (vacant : s.view.curr (s.view.sfq e) = none) : ∃ s', activateEntity s (s.view.sfq e) e = some s' := by
  have there : s.view.onSfq e := by
    rcases core.covered e joined pss with there | current
    · exact (core.onSfq e).mpr there
    · rw [vacant] at current
      cases current
  have look := runqDequeueEntity_view (e := e) core
  obtain ⟨a, raw⟩ : ∃ a, rawDequeueEntity (runqDequeueEntity s e) (s.view.sfq e) e = some a := by
    have there' : (runqDequeueEntity s e).view.onSfq e = true := by
      rw [look]
      exact there
    exact ⟨_, if_pos there'⟩
  obtain ⟨_, look', _⟩ := rawDequeueEntity_spec _ _ _ raw
  rw [look] at look'
  refine ⟨activateStart a (s.view.sfq e) e, ?_⟩
  have vacant' : (a.sfq (s.view.sfq e)).curr = none := by
    rw [view_curr, look']
    exact vacant
  have joined' : (s.ent e).joined = true := joined
  unfold activateEntity
  rw [if_pos joined']
  change (rawDequeueEntity (runqDequeueEntity s e) (s.view.sfq e) e).bind _ = _
  rw [raw, Option.bind_some, if_pos vacant']
  rfl

/-- Afterwards the queues still fit, with one more current entity. -/
theorem activateEntity_total (fits : QueueFits s L) (joined : s.view.joined e) (pss : e.pss s.view.cls)
    (vacant : s.view.curr (s.view.sfq e) = none) :
    ∃ s', activateEntity s (s.view.sfq e) e = some s' ∧ QueueFits s' (e :: L) ∧
      s'.view = s.view.activated (s.view.sfq e) e := by
  obtain ⟨s', run⟩ := activateEntity_runs fits.core joined pss vacant
  obtain ⟨_, _, _, view⟩ := activateEntity_view fits.core run
  obtain ⟨_, a, raw, _, rfl⟩ := activateEntity_parts run
  obtain ⟨_, _, books⟩ := rawDequeueEntity_spec _ _ _ raw
  rw [runqDequeueEntity_books] at books
  refine ⟨_, run, ⟨?_, ?_, ?_, ?_⟩, view⟩
  · rw [view]
    exact fits.core.activated pss vacant
  · rw [view]
    exact fits.tight.activated
  · intro c q x seat
    have same : (activateStart a (s.view.sfq e) e).books.candidate c = s.books.candidate c := by
      cases c <;> simp [activateStart, books_modEnt, books_modSfq, books_emit, books, Books.candidate]
    rw [same] at seat
    rw [view]
    exact fits.seats c q x seat
  · intro q
    have left : (activateStart a (s.view.sfq e) e).books.leftmost = a.books.leftmost := by
      simp [activateStart, books_modEnt, books_modSfq, books_emit]
    have seq : (activateStart a (s.view.sfq e) e).books.seq = a.books.seq := by
      simp [activateStart, books_modEnt, books_modSfq, books_emit]
    rw [left, seq, books]
    by_cases here : q = s.view.sfq e
    · subst here
      simp only [update_self, erase_head, fits.leftmost]
    · simp only [update_of_ne here, fits.leftmost]

theorem pssActivateWalk_total {chain : List EntId} (fits : QueueFits s L)
    (member : ∀ e ∈ chain, s.view.joined e ∧ e.pss s.view.cls ∧ s.view.curr (s.view.sfq e) = none)
    (apart : chain.Pairwise fun a b => s.view.sfq a ≠ s.view.sfq b) :
    ∃ s', pssActivateWalk s chain = some s' ∧ QueueFits s' (chain ++ L) := by
  induction chain generalizing s L with
  | nil => exact ⟨s, rfl, fits⟩
  | cons e rest ih =>
    obtain ⟨joined, pss, vacant⟩ := member e (List.mem_cons_self ..)
    obtain ⟨others, apart⟩ := List.pairwise_cons.mp apart
    obtain ⟨a, run, fits', look⟩ := activateEntity_total fits joined pss vacant
    obtain ⟨s', walk, done⟩ := ih fits' (fun x inside => by
      obtain ⟨joined, pss, vacant⟩ := member x (List.mem_cons_of_mem _ inside)
      rw [look]
      refine ⟨joined, pss, ?_⟩
      change update s.view.curr (s.view.sfq e) (some e) (s.view.sfq x) = none
      rw [update_of_ne (Ne.symm (others x inside))]
      exact vacant) (by rw [look]; exact apart)
    refine ⟨s', ?_, { done with core := done.core.swap (by simp; tauto) }⟩
    unfold pssActivateWalk
    rw [view_sfq, run]
    exact walk

/-- A chain of joined entities can be activated if no queue along it has a current entity. -/
theorem pssActivateWalk_runs {C : Conds} {d : Option EntId} {chain : List EntId} (inv : Inv C s L d)
    (member : ∀ e ∈ chain, s.view.joined e ∧ e.pss s.view.cls ∧ s.view.curr (s.view.sfq e) = none)
    (apart : chain.Pairwise fun a b => s.view.sfq a ≠ s.view.sfq b) : ∃ s', pssActivateWalk s chain = some s' := by
  induction chain generalizing s L with
  | nil => exact ⟨s, rfl⟩
  | cons e rest ih =>
    obtain ⟨joined, pss, vacant⟩ := member e (List.mem_cons_self ..)
    obtain ⟨others, apart⟩ := List.pairwise_cons.mp apart
    obtain ⟨a, run⟩ := activateEntity_runs inv.core joined pss vacant
    obtain ⟨_, _, _, look⟩ := activateEntity_view inv.core run
    obtain ⟨s', walk⟩ := ih (activateEntity_inv inv run).1 (fun x inside => by
      obtain ⟨joined, pss, vacant⟩ := member x (List.mem_cons_of_mem _ inside)
      rw [look]
      refine ⟨joined, pss, ?_⟩
      change update s.view.curr (s.view.sfq e) (some e) (s.view.sfq x) = none
      rw [update_of_ne (Ne.symm (others x inside))]
      exact vacant) (by rw [look]; exact apart)
    refine ⟨s', ?_⟩
    unfold pssActivateWalk
    rw [view_sfq, run]
    exact walk

/-- Where all weights are positive the chain of a joined thread is joined, so that the thread can be activated. -/
theorem pssActivateThread_runs {C : Conds} (inv : Inv C s [] none) (positive : C.positive)
    (joined : s.view.joined (.thread t)) (cls : s.view.cls t = .pss) : ∃ s', pssActivateThread s t = some s' := by
  obtain ⟨rest, eq, links, _, _⟩ := thread_chain inv.core.hier t
  have whole : Chain s.view.parent (some (.thread t)) (.thread t :: rest) := .link links
  have member : ∀ e ∈ EntId.thread t :: rest, s.view.joined e ∧ e.pss s.view.cls := by
    refine whole.all ?_ fun a b below up => inv.core.parent_joined (inv.tight positive) below.1 below.2 up
    rintro e ⟨⟩
    exact ⟨joined, cls⟩
  obtain ⟨a, walk⟩ := pssActivateWalk_runs inv
    (fun e inside => ⟨(member e inside).1, (member e inside).2, inv.core.vacant _⟩)
    (inv.core.hier.queues_apart whole)
  unfold pssActivateThread
  dsimp only
  rw [eq, walk]
  exact ⟨_, rfl⟩

theorem QueueFits.congr (fits : QueueFits s L) (view : s'.view.bones = s.view.bones)
    (candidate : s'.books.candidate = s.books.candidate) (leftmost : s'.books.leftmost = s.books.leftmost)
    (seq : s'.books.seq = s.books.seq) : QueueFits s' L where
  core := View.core_bones.mp (view ▸ View.core_bones.mpr fits.core)
  tight := View.tight_bones.mp (view ▸ View.tight_bones.mpr fits.tight)
  seats c q e seat := by
    have joined : s'.view.bones.joined = s.view.bones.joined := by rw [view]
    have cls : s'.view.bones.cls = s.view.bones.cls := by rw [view]
    have sfq : s'.view.bones.sfq = s.view.bones.sfq := by rw [view]
    have joined' : s'.view.joined = s.view.joined := joined
    have cls' : s'.view.cls = s.view.cls := cls
    have sfq' : s'.view.sfq = s.view.sfq := sfq
    rw [joined', cls', sfq']
    rw [candidate] at seat
    exact fits.seats c q e seat
  leftmost q := by
    rw [leftmost, seq]
    exact fits.leftmost q

theorem pssActivateThread_total (fits : QueueFits s []) (joined : s.view.joined (.thread t))
    (cls : s.view.cls t = .pss) :
    ∃ s', pssActivateThread s t = some s' ∧ QueueFits s' (cpuChain s t) := by
  obtain ⟨rest, eq, links, _, _⟩ := thread_chain fits.core.hier t
  have whole : Chain s.view.parent (some (.thread t)) (.thread t :: rest) := .link links
  have member : ∀ e ∈ EntId.thread t :: rest, s.view.joined e ∧ e.pss s.view.cls := by
    refine whole.all ?_ fun a b below up => fits.core.parent_joined fits.tight below.1 below.2 up
    rintro e ⟨⟩
    exact ⟨joined, cls⟩
  obtain ⟨a, walk, fits'⟩ := pssActivateWalk_total fits
    (fun e inside => ⟨(member e inside).1, (member e inside).2, fits.core.vacant _⟩)
    (fits.core.hier.queues_apart whole)
  have run : pssActivateThread s t = some ((setTdState a t .running).emit
      (.dispatched t (execTimes a (.thread t :: rest)) a.rq.clockThread)) := by
    unfold pssActivateThread
    dsimp only
    rw [eq, walk]
    rfl
  refine ⟨_, run, ?_⟩
  rw [List.append_nil] at fits'
  rw [cpuChain, if_pos cls, eq]
  exact fits'.congr (by simp; rfl) rfl rfl rfl

theorem rtActivateThread_total (fits : QueueFits s []) (joined : s.view.joined (.thread t))
    (cls : s.view.cls t = .realtime) (queued : s.view.realtime t) :
    ∃ s', rtActivateThread s t = some s' ∧ QueueFits s' [] ∧ s'.rq.rtCurr = some (.thread t) := by
  have onRunq := fits.core.realtime t queued
  have apart : ¬ s.view.onSfq (.thread t) := by
    intro there
    have pss := (fits.core.member _ _ ((fits.core.onSfq _).mp there)).2.1
    simp [cls] at pss
  have may : (s.ent (.thread t)).joined ∧ (s.ent (.thread t)).onRunq ∧ ¬(s.ent (.thread t)).onSfq :=
    ⟨joined, onRunq, apart⟩
  obtain ⟨s', run, current⟩ : ∃ s', rtActivateThread s t = some s' ∧ s'.rq.rtCurr = some (.thread t) :=
    ⟨_, if_pos may, rfl⟩
  obtain ⟨_, look, ⟨_, books⟩, _⟩ := rtActivateThread_spec run
  have inv : Inv ⟨True, True, True, True, True, True⟩ s [] none :=
    ⟨fits.core, fun _ => fits.tight, fits.tight.filled⟩
  obtain ⟨reaches, _⟩ := rtActivateThread_reaches inv cls run
  refine ⟨s', run, ⟨reaches.inv.core, reaches.inv.tight trivial, ?_, ?_⟩, current⟩
  · intro c q e seat
    rw [books] at seat
    rw [look]
    exact fits.seats c q e (by cases c <;> exact seat)
  · intro q
    rw [books]
    exact fits.leftmost q

theorem classActivateThread_total (fits : QueueFits s []) (joined : s.view.joined (.thread t))
    (cls : s.view.cls t = .realtime ∨ s.view.cls t = .pss) (queued : s.view.cls t = .realtime → s.view.realtime t) :
    ∃ s', classActivateThread (s.view.cls t) s t = some s' ∧ QueueFits s' (cpuChain s t) ∧
      (s.view.cls t = .realtime → s'.rq.rtCurr = some (.thread t)) := by
  rcases cls with rt | pss
  · obtain ⟨s', run, fits', current⟩ := rtActivateThread_total fits joined rt (queued rt)
    refine ⟨s', by rw [rt]; exact run, ?_, fun _ => current⟩
    rw [cpuChain, if_neg (by simp [rt])]
    exact fits'
  · obtain ⟨s', run, fits'⟩ := pssActivateThread_total fits joined pss
    refine ⟨s', by rw [pss]; exact run, fits', fun rt => ?_⟩
    exact absurd (rt.symm.trans pss) (by simp)

end activate

section pick
variable {s s' : State} {q : Gid}

/-- `pick_next_entity` on a queue that counts an entity returns one of its entities. -/
theorem pickNextEntity_total (fits : QueueFits s []) (busy : 0 < s.view.nr q) :
    ∃ e s', pickNextEntity s q = some (e, s') ∧ QueueFits s' [] ∧ s'.view = s.view ∧
      s.view.joined e ∧ e.pss s.view.cls ∧ s.view.sfq e = q := by
  obtain ⟨x, there⟩ := fits.core.occupied busy
  have inSeq (e : EntId) (member : e ∈ s.books.seq q) : e ∈ s.view.timeline q := by
    rw [← view_timeline]
    exact member
  obtain ⟨first, isFirst⟩ : ∃ first, s.books.leftmost q = some first := by
    rw [fits.leftmost]
    have member : x ∈ s.books.seq q := by
      rw [← view_timeline] at there
      exact there
    cases seq : s.books.seq q with
    | nil => simp [seq] at member
    | cons a rest => exact ⟨a, rfl⟩
  obtain ⟨e, s', run⟩ : ∃ e s', pickNextEntity s q = some (e, s') := by
    unfold pickNextEntity
    rw [books_leftmost, isFirst]
    exact ⟨_, _, rfl⟩
  obtain ⟨first', gran, a, isFirst', view, books, _, rfl, which⟩ := pickNextEntity_spec run
  have seated : s.view.joined e ∧ e.pss s.view.cls ∧ s.view.sfq e = q := by
    rcases which with rfl | ⟨member | ⟨c, seat⟩, _⟩
    · rw [fits.leftmost] at isFirst'
      exact fits.core.member q e (inSeq e (List.mem_of_mem_head? isFirst'))
    · exact fits.core.member q e (inSeq e member)
    · exact fits.seats c q e seat
  have marked := clearCandidates_marked (r := fun _ _ => False)
    (a.emit (.pick q (s.books.seq q) first' gran e)) q e
  have view' : (clearCandidates (a.emit (.pick q (s.books.seq q) first' gran e)) q e).view = s.view := by
    simp [view]
  refine ⟨e, _, run, ⟨view' ▸ fits.core, view' ▸ fits.tight, fun c q' x seat => ?_, fun q' => ?_⟩, view', seated⟩
  · rw [view']
    rcases marked.pointer c q' x seat with old | never
    · refine fits.seats c q' x ?_
      rw [← books]
      cases c <;> exact old
    · exact never.elim
  · rw [marked.rest]
    simp only [books_emit, books]
    exact fits.leftmost q'

/-- The descent reaches a thread: every queue it enters counts an entity, and a
queue further down belongs to a younger group. -/
theorem pssPickFrom_total : ∀ (fuel : Nat) {s : State} {q : Nat}, QueueFits s [] → 0 < s.view.nr q →
    q < s.view.ngroups → s.view.ngroups < q + fuel →
    ∃ t s', pssPickFrom s fuel q = some (.thread t, s') ∧ QueueFits s' [] ∧ s'.view = s.view ∧
      s.view.joined (.thread t) ∧ s.view.cls t = .pss := by
  intro fuel
  induction fuel with
  | zero =>
    intro s q _ _ inside enough
    omega
  | succ fuel ih =>
    intro s q fits busy inside enough
    obtain ⟨e, a, run, fits', view, joined, pss, place⟩ := pickNextEntity_total fits busy
    cases e with
    | thread t =>
      refine ⟨t, a, ?_, fits', view, joined, pss⟩
      have leaf : (a.ent (.thread t)).myQ = none := by
        rw [view_myQ, view]
        exact fits.core.hier.threadQ t
      simp only [pssPickFrom, run]
      rw [leaf]
    | group g =>
      obtain ⟨pos, inside'⟩ : 0 < g ∧ g < s.view.ngroups := fits.core.valid _ joined
      have lower : q ≤ g - 1 := place ▸ fits.core.hier.lower g
      have further (g n : Nat) (pos : 0 < g) (lower : q ≤ g - 1) (old : n < q + (fuel + 1)) : n < g + fuel := by
        omega
      have busy' : 0 < a.view.nr g := by
        rw [view]
        exact (fits.tight.groups g pos inside' (by simp)).mp joined
      obtain ⟨t, s', walk, fits'', view', joined', cls⟩ :=
        ih (q := g) fits' busy' (by rw [view]; exact inside') (by rw [view]; exact further g _ pos lower enough)
      rw [view] at view' joined' cls
      refine ⟨t, s', ?_, fits'', view', joined', cls⟩
      have inner : (a.ent (.group g)).myQ = some g := by
        rw [view_myQ, view]
        exact fits.core.hier.groupQ g pos inside'
      simp only [pssPickFrom, run]
      rw [inner]
      exact walk

/-- Once an entry is found, the search for the first queue keeps one. -/
theorem firstQueue_found (l : List RunqEntry) (entry : RunqEntry) : l.foldl (fun best entry =>
    match best with
    | none => some entry
    | some b => if entry.index < b.index then some entry else best) (some entry) ≠ none := by
  induction l generalizing entry with
  | nil => simp
  | cons a rest ih =>
    rw [List.foldl_cons]
    dsimp only
    split <;> exact ih _

theorem runqChoose_none {realtime : List RunqEntry} (none_there : runqChoose realtime = none) : realtime = [] := by
  cases realtime with
  | nil => rfl
  | cons a rest => exact absurd (Option.map_eq_none_iff.mp none_there) (firstQueue_found rest a)

end pick

end SfqSched
