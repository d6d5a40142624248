import EmailServer.Ha.SharedQueue

/-! # When a message is delivered again

One node at a time works on the queue. So a message is handed to `deliver` again only when
its last attempt has ended and left it open: the node crashed in it, or the message could not
be marked.
-/

namespace EmailServer.Ha

open Queue (QueueProg QueueState QueueStep Call Outcome callProgram concurrent)

variable {ι ε : Type} [DecidableEq ι] [DecidableEq ε]

/-! ## Nodes -/

section Nodes

variable {s t : ι → Node} {i j : ι} {action : HaAction}

theorem HaStep.elsewhere (step : HaStep s (i, action) t) (other : j ≠ i) : t j = s j := by
  cases step
  exact Function.update_of_ne other _ _

/-- Only the end of the pass and a crash take a node from its work. -/
theorem HaStep.working (step : HaStep s (i, action) t) (ordered : Ordered s)
    (stays : action ≠ .work) (lives : action ≠ .crash) (working : (s j).Working) :
    (t j).Working := by
  cases step with
  | node alive step =>
      by_cases this : j = i
      · subst this
        obtain ⟨-, works⟩ := working
        rw [Function.update_self]
        cases step with
        | work => exact absurd rfl stays
        | crash => exact absurd rfl lives
        | join _ ended => simp [works] at ended
        | launch starting =>
            have absent := (ordered.nodes j alive).quiet (.inl starting)
            rw [absent] at works
            cases works
        | _ => simp_all [Node.Working]
      · rwa [Function.update_of_ne this]

theorem HaStep.leads (step : HaStep s (i, .lead) t) : ¬ (s i).Working ∧ (t i).Working := by
  cases step with
  | node alive step =>
      rw [Function.update_self]
      cases step with
      | lead leads =>
          refine ⟨fun working => ?_, alive, rfl⟩
          rw [working.2] at leads
          cases leads

omit [DecidableEq ι] in
theorem Ordered.alone (ordered : Ordered s) (workingI : (s i).Working) (workingJ : (s j).Working) :
    i = j :=
  ordered.exclusive i j ((ordered.nodes i workingI.1).holds (.inr workingI.2))
    ((ordered.nodes j workingJ.1).holds (.inr workingJ.2))

end Nodes

/-! ## The system -/

/-- The node is inside a call on the queue. -/
def Work.calls : Work → Bool
  | .fetching | .marking _ => true
  | _ => false

/-- What is known of a program that a thread is in front of. -/
def Proper (s : QueueState (ι ⊕ ε)) : ι ⊕ ε → QueueProg (Call × Outcome) → Prop
  | .inl i, p => (worker (.inl i)).Safe () Delivers p s
  | .inr _, p => p.Uses Fills

theorem proper_update {running : ι ⊕ ε → Option (QueueProg (Call × Outcome))} {x : ι ⊕ ε}
    {q : Option (QueueProg (Call × Outcome))} {s : QueueState (ι ⊕ ε)}
    (here : ∀ p, q = some p → Proper s x p)
    (others : ∀ y p, y ≠ x → running y = some p → Proper s y p) :
    ∀ y p, Function.update running x q y = some p → Proper s y p := by
  intro y p runs
  by_cases this : y = x
  · subst this
    rw [Function.update_self] at runs
    exact here p runs
  · rw [Function.update_of_ne this] at runs
    exact others y p this runs

structure Sound (c : Cluster ι ε) : Prop where
  ordered : Ordered c.nodes
  reached : Queue.Reachable c.queue
  busy : ∀ i, c.work i ≠ .idle → (c.nodes i).Working
  quiet : ∀ i, (c.work i).calls = false → c.queue.running (.inl i) = none
  proper : ∀ x p, c.queue.running x = some p → Proper c.queue.shared x p

namespace Sound

variable {c d : Cluster ι ε} {i j : ι} {l : ClusterLabel ι}

theorem start (now : Nat) : Sound (.start now : Cluster ι ε) where
  ordered := fresh_ordered
  reached := ⟨now, .refl⟩
  busy _ works := absurd rfl works
  quiet _ _ := rfl
  proper _ _ running := nomatch running

theorem valid (sound : Sound c) : c.queue.shared.Valid :=
  (Queue.reachable_consistent sound.reached).valid

theorem alone (sound : Sound c) (here : c.work i ≠ .idle) (there : c.work j ≠ .idle) : i = j :=
  sound.ordered.alone (sound.busy i here) (sound.busy j there)

theorem runs_busy (sound : Sound c) {p : QueueProg (Call × Outcome)}
    (running : c.queue.running (.inl i) = some p) : c.work i ≠ .idle := by
  intro idle
  have none_ := sound.quiet i (by rw [idle]; rfl)
  rw [running] at none_
  cases none_

theorem idle (sound : Sound c) (rests : ¬ (c.nodes i).Working) : c.work i = .idle := by
  by_contra works
  exact rests (sound.busy i works)

theorem handed (sound : Sound c) {msg : Queue.QueueMessage}
    (running : c.queue.running (.inl i) =
      some (.pure (.fetchReady, .fetched (.ok (some msg))))) :
    c.queue.shared.disk.files (Queue.msgPath .inflight msg.id) ≠ none := by
  have safe : (worker (.inl i)).Safe () Delivers _ c.queue.shared := sound.proper _ _ running
  exact safe c.queue.shared trivial (fun _ _ there => there) (some msg) rfl msg rfl

/-- What a step does to the queue its threads can do. -/
theorem queue (sound : Sound c) (step : Cluster.Step c l d) :
    Relation.ReflTransGen QueueStep c.queue d.queue := by
  cases step with
  | node | done => exact .refl
  | lead step =>
      have rests := sound.quiet _ (by rw [sound.idle step.leads.1]; rfl)
      exact .single (.call rests ⟨_, rfl⟩)
  | nothing _ running | fetched _ running | marked _ running | produced running =>
      exact .single (.finish running)
  | empty _ running =>
      refine .tail (.single (.finish running)) (.call ?_ ⟨_, rfl⟩)
      exact Function.update_self _ _ _
  | answered _ delivers =>
      exact .single (.call (sound.quiet _ (by rw [delivers]; rfl)) ⟨_, rfl⟩)
  | crash | killed => exact .single (.die _)
  | operate running effect => exact .single (.operate running effect)
  | produce rests => exact .single (.call rests ⟨_, rfl⟩)
  | wait tick => exact .single (.around tick)

theorem acts (sound : Sound c) {w : Work} {q : Option (QueueProg (Call × Outcome))}
    (reached : Queue.Reachable d.queue) (ordered : Ordered d.nodes)
    (elsewhere : ∀ j, j ≠ i → d.nodes j = c.nodes j) (work : d.work = Function.update c.work i w)
    (running : d.queue.running = Function.update c.queue.running (.inl i) q)
    (shared : d.queue.shared = c.queue.shared) (busy : w ≠ .idle → (d.nodes i).Working)
    (quiet : w.calls = false → q = none)
    (proper : ∀ p, q = some p → Proper c.queue.shared (.inl i) p) : Sound d where
  ordered := ordered
  reached := reached
  busy j works := by
    rw [work] at works
    by_cases this : j = i
    · subst this
      rw [Function.update_self] at works
      exact busy works
    · rw [Function.update_of_ne this] at works
      rw [elsewhere j this]
      exact sound.busy j works
  quiet j rests := by
    rw [work] at rests
    rw [running]
    by_cases this : j = i
    · subst this
      rw [Function.update_self] at rests ⊢
      exact quiet rests
    · have other : (Sum.inl j : ι ⊕ ε) ≠ .inl i := fun same => this (Sum.inl.inj same)
      rw [Function.update_of_ne this] at rests
      rw [Function.update_of_ne other]
      exact sound.quiet j rests
  proper := by
    rw [shared, running]
    exact proper_update proper fun y p _ => sound.proper y p

theorem fills (sound : Sound c) {e : ε} {q : Option (QueueProg (Call × Outcome))}
    (reached : Queue.Reachable d.queue) (nodes : d.nodes = c.nodes) (work : d.work = c.work)
    (running : d.queue.running = Function.update c.queue.running (.inr e) q)
    (shared : d.queue.shared = c.queue.shared)
    (proper : ∀ p, q = some p → p.Uses Fills) : Sound d where
  ordered := by
    rw [nodes]
    exact sound.ordered
  reached := reached
  busy j works := by
    rw [work] at works
    rw [nodes]
    exact sound.busy j works
  quiet j rests := by
    rw [work] at rests
    rw [running, Function.update_of_ne Sum.inl_ne_inr]
    exact sound.quiet j rests
  proper := by
    rw [shared, running]
    exact proper_update proper fun y p _ => sound.proper y p

theorem shifts (sound : Sound c) {s : QueueState (ι ⊕ ε)}
    (reached : Queue.Reachable { c.queue with shared := s })
    (keeps : Keeps c.queue.shared s) : Sound { c with queue.shared := s } where
  ordered := sound.ordered
  reached := reached
  busy := sound.busy
  quiet := sound.quiet
  proper x p runs := by
    have proper := sound.proper x p runs
    cases x with
    | inl i => exact Discipline.Safe.later proper keeps
    | inr e => exact proper

/-- The thread of a node opens no message, and the others wait for it; a producer keeps the
    files of all messages. -/
theorem operates (sound : Sound c) {x : ι ⊕ ε} {op : FsOp Queue.QueuePath Queue.QueueScan}
    {next : op.Res → QueueProg (Call × Outcome)} {r : op.Res} {t : QueueState (ι ⊕ ε)}
    (running : c.queue.running x = some (.step op next))
    (effect : QueueState.sem concurrent x op c.queue.shared r t) :
    (OpensNone c.queue.shared t ∨ Keeps c.queue.shared t) ∧
      ∀ y p, Function.update c.queue.running x (some (next r)) y = some p → Proper t y p := by
  have proper := sound.proper x _ running
  cases x with
  | inl i =>
      obtain ⟨⟨-, opens, -⟩, safe⟩ := proper c.queue.shared trivial (fun _ _ there => there) r t effect
      refine ⟨.inl opens, proper_update ?_ fun y p other runs => ?_⟩
      · rintro p ⟨⟩
        exact safe
      cases y with
      | inl j =>
          have same := sound.alone (sound.runs_busy runs) (sound.runs_busy running)
          exact absurd (congrArg Sum.inl same) other
      | inr e => exact sound.proper (.inr e) p runs
  | inr e =>
      have keeps := fills_keeps proper.1 effect
      refine ⟨.inr keeps, proper_update ?_ fun y p _ runs => ?_⟩
      · rintro p ⟨⟩
        exact proper.2 r
      cases y with
      | inl j => exact Discipline.Safe.later (sound.proper (.inl j) p runs) keeps
      | inr e' => exact sound.proper (.inr e') p runs

theorem reach (sound : Sound c) (step : Cluster.Step c l d) : Queue.Reachable d.queue :=
  Queue.reachable_later sound.reached (sound.queue step)

theorem step (sound : Sound c) (step : Cluster.Step c l d) : Sound d := by
  have reached := sound.reach step
  cases step with
  | node stays works lives step =>
      exact { sound with
        ordered := step_ordered step sound.ordered
        busy := fun j busy => step.working sound.ordered works lives (sound.busy j busy) }
  | lead step =>
      apply sound.acts reached (step_ordered step sound.ordered) (fun j => step.elsewhere) rfl rfl rfl
      · exact fun _ => step.leads.2
      · simp [Work.calls]
      · rintro p ⟨⟩
        exact fetch_safe
  | nothing fetches running =>
      apply sound.acts reached sound.ordered (fun _ _ => rfl) rfl rfl rfl _ (fun _ => rfl) nofun
      exact fun _ => sound.busy _ (by simp [fetches])
  | fetched fetches running =>
      apply sound.acts reached sound.ordered (fun _ _ => rfl) rfl rfl rfl _ (fun _ => rfl) nofun
      exact fun _ => sound.busy _ (by simp [fetches])
  | @empty i msg fetches running =>
      apply sound.acts reached sound.ordered (fun _ _ => rfl) rfl (Function.update_idem ..) rfl
      · exact fun _ => sound.busy _ (by simp [fetches])
      · simp [Work.calls]
      · rintro p ⟨⟩
        exact mark_safe (markFail_safe .failure msg) rfl
  | answered result delivers =>
      apply sound.acts reached sound.ordered (fun _ _ => rfl) rfl rfl rfl
      · exact fun _ => sound.busy _ (by simp [delivers])
      · simp [Work.calls]
      · rintro p ⟨⟩
        exact markCall_safe _ result
  | marked marks running =>
      apply sound.acts reached sound.ordered (fun _ _ => rfl) rfl rfl rfl _ (fun _ => rfl) nofun
      exact fun _ => sound.busy _ (by simp [marks])
  | @done i nodes ended step =>
      have rests := sound.quiet i (by simp [ended, Work.calls])
      apply sound.acts reached (step_ordered step sound.ordered) (fun j => step.elsewhere) rfl _ rfl
        (fun busy => absurd rfl busy) (fun _ => rfl) nofun
      rw [← rests, Function.update_eq_self]
      rfl
  | crash step =>
      exact sound.acts reached (step_ordered step sound.ordered) (fun j => step.elsewhere) rfl rfl rfl
        (fun busy => absurd rfl busy) (fun _ => rfl) nofun
  | @operate x op next r t running effect =>
      refine ⟨sound.ordered, reached, sound.busy, fun j rests => ?_, (sound.operates running effect).2⟩
      have none_ := sound.quiet j rests
      by_cases this : Sum.inl j = x
      · subst this
        rw [running] at none_
        cases none_
      · exact (Function.update_of_ne this _ _).trans none_
  | produce rests produces =>
      apply sound.fills reached rfl rfl rfl rfl
      rintro p ⟨⟩
      exact produces_fills produces
  | produced running => exact sound.fills reached rfl rfl rfl rfl nofun
  | killed e => exact sound.fills reached rfl rfl rfl rfl nofun
  | wait tick =>
      obtain ⟨later, -, rfl⟩ := tick
      exact sound.shifts reached fun _ _ there => there

theorem grows (sound : Sound c) (step : Cluster.Step c l d) :
    QueueState.Grows c.queue.shared d.queue.shared :=
  Pool.steps_grow Queue.guaranteed QueueState.Grows.refl (fun _ _ _ => QueueState.Grows.trans)
    (sound.queue step) (Queue.reachable_consistent sound.reached)

theorem opens (sound : Sound c) (step : Cluster.Step c l d) {id : Bytes}
    (opened : Open d.queue.shared.disk id) :
    Open c.queue.shared.disk id ∨ c.queue.shared.published id = none := by
  have after := (sound.step step).valid
  have grows := sound.grows step
  cases step with
  | operate running effect =>
      rcases (sound.operates running effect).1 with opensNone | keeps
      · exact .inl (opensNone id opened)
      · exact keeps.opens sound.valid after grows opened
  | wait tick =>
      obtain ⟨later, -, rfl⟩ := tick
      exact .inl opened
  | _ => exact .inl opened

theorem published (sound : Sound c) (step : Cluster.Step c l d) {id : Bytes}
    (known : c.queue.shared.published id ≠ none) : d.queue.shared.published id ≠ none := by
  obtain ⟨content, known⟩ := Option.ne_none_iff_exists'.mp known
  rw [(sound.grows step).published id content known]
  exact Option.some_ne_none content

/-- The node that has been handed a message keeps it until its call is over or it crashes. -/
theorem holds (sound : Sound c) (step : Cluster.Step c l d) {id : Bytes}
    (holds : (c.work i).holds id) (opened : Open d.queue.shared.disk id)
    (keeps : ¬ Went.reopens id ⟨l, c, d⟩) : (d.work i).holds id := by
  -- a step of another node leaves the work of this one alone
  have other : ∀ {j w}, (j = i → w.holds id) → (Function.update c.work j w i).holds id := by
    intro j w here
    by_cases this : i = j
    · subst this
      rw [Function.update_self]
      exact here rfl
    · rwa [Function.update_of_ne this]
  cases step with
  | node | operate | produce | produced | killed | wait => exact holds
  | lead step =>
      apply other
      rintro rfl
      simp [sound.idle step.leads.1, Work.holds] at holds
  | nothing fetches | fetched fetches | empty fetches =>
      apply other
      rintro rfl
      simp [fetches, Work.holds] at holds
  | answered result delivers =>
      apply other
      rintro rfl
      rwa [delivers] at holds
  | marked marks =>
      apply other
      rintro rfl
      exact absurd (by simp [Went.reopens, holds, opened]) keeps
  | done ended =>
      apply other
      rintro rfl
      simp [ended, Work.holds] at holds
  | crash =>
      apply other
      rintro rfl
      exact absurd holds keeps

end Sound

/-! ## Attempts -/

/-- What the steps so far tell about the messages. -/
structure Accounted (past : List (Went ι ε)) (c : Cluster ι ε) : Prop where
  known : ∀ id, (∃ x ∈ past, x.attempts id) → c.queue.shared.published id ≠ none
  held : ∀ id, Since (fun x => x.attempts id) (fun x => x.reopens id) past → Open c.queue.shared.disk id →
    ∃ i, (c.work i).holds id

namespace Accounted

variable {past : List (Went ι ε)} {c d : Cluster ι ε} {l : ClusterLabel ι}

theorem attempted (sound : Sound c) (step : Cluster.Step c l d) {id : Bytes}
    (attempts : Went.attempts id ⟨l, c, d⟩) : Open c.queue.shared.disk id ∧
      (∃ i, c.work i = .fetching) ∧ ∃ i, (d.work i).holds id := by
  cases step with
  | @fetched i msg fetches running =>
      obtain rfl : msg.id = id := by simpa [Went.attempts] using attempts
      refine ⟨.inr (sound.handed running), ⟨i, fetches⟩, i, ?_⟩
      show (Function.update c.work i (.delivering msg) i).holds msg.id
      simp [Work.holds]
  | _ => cases attempts

theorem step (sound : Sound c) (accounted : Accounted past c) (step : Cluster.Step c l d) :
    Accounted (past ++ [⟨l, c, d⟩]) d where
  known id := by
    rintro ⟨x, member, attempts⟩
    apply sound.published step
    rcases List.mem_append.mp member with old | last
    · exact accounted.known id ⟨x, old, attempts⟩
    · obtain rfl := List.mem_singleton.mp last
      intro unknown
      exact (attempted sound step attempts).1.present (sound.valid.gone id (.inl unknown))
  held id := by
    rw [Since.concat]
    rintro (attempts | ⟨keeps, since⟩) opened
    · exact (attempted sound step attempts).2.2
    · have known := accounted.known id (by
        obtain ⟨earlier, x, later, rfl, attempts, -⟩ := since
        exact ⟨x, by simp, attempts⟩)
      obtain ⟨i, holds⟩ := accounted.held id since ((sound.opens step opened).resolve_right known)
      exact ⟨i, sound.holds step holds opened keeps⟩

theorem run {now : Nat} (trace : Trace Cluster.Step (.start now) past c) :
    Sound c ∧ Accounted past c := by
  let inv (past : List (Went ι ε)) (c : Cluster ι ε) : Prop := Sound c ∧ Accounted past c
  have initial : inv [] (.start now) :=
    ⟨Sound.start now, by simp, fun id since => absurd since Since.nil⟩
  have step : ∀ past c l d, inv past c → Cluster.Step c l d → inv (past ++ [⟨l, c, d⟩]) d :=
    fun past c l d met taken => ⟨met.1.step taken, met.2.step met.1 taken⟩
  exact (trace.always initial step).1

end Accounted

/-- In every run of nodes and producers on one queue, whatever fails and whoever crashes, a
    message is handed to `deliver` again only after the last attempt has ended and left it open:
    its node crashed, or its mark operation came to nothing. -/
theorem delivered_again {now : Nat} {past : List (Went ι ε)} {c d : Cluster ι ε} {i : ι}
    {msg : Queue.QueueMessage} (trace : Trace Cluster.Step (.start now) past c)
    (step : Cluster.Step c (.attempt i msg) d) :
    ¬ Since (fun x => x.attempts msg.id) (fun x => x.reopens msg.id) past := by
  intro since
  obtain ⟨sound, accounted⟩ := Accounted.run trace
  have attempts : Went.attempts msg.id ⟨.attempt i msg, c, d⟩ := beq_self_eq_true _
  obtain ⟨opened, ⟨j, fetches⟩, -⟩ := Accounted.attempted sound step attempts
  obtain ⟨k, holds⟩ := accounted.held msg.id since opened
  obtain rfl : j = k := by
    apply sound.alone
    · simp [fetches]
    · rintro idle
      simp [idle, Work.holds] at holds
  simp [fetches, Work.holds] at holds

/-! ## A node that crashes over its message -/

section Crash

variable {start c : Cluster ι ε} {past : List (Went ι ε)} {i : ι}

/-- A node leads, and begins a pass. -/
def Cluster.led (c : Cluster ι ε) (i : ι) : Cluster ι ε :=
  ({ c with nodes := Function.update c.nodes i leading }.works i .fetching).thread (.inl i)
    (some (callProgram .fetchReady))

theorem led_later (trace : Trace Cluster.Step start past c) (new : c.nodes i = {})
    (free : LockFree c.nodes) : ∃ more, Trace Cluster.Step start (past ++ more) (c.led i) := by
  have free : ∀ n : Node, n.handle = false → LockFree (Function.update c.nodes i n) := by
    intro n closed j
    by_cases this : j = i
    · rw [this, Function.update_self, closed]
    · rw [Function.update_of_ne this, free j]
  have same : c = { c with nodes := Function.update c.nodes i {} } := by
    rw [← new, Function.update_eq_self]
  have goes : ∀ {past : List (Went ι ε)} {n m : Node} {action : HaAction},
      Trace Cluster.Step start past { c with nodes := Function.update c.nodes i n } →
      n.alive = true → n.Step (LockFree (Function.update c.nodes i n)) action m →
      action ≠ .lead → action ≠ .work → action ≠ .crash →
      Trace Cluster.Step start (past ++ [⟨.node i action,
          { c with nodes := Function.update c.nodes i n },
          { c with nodes := Function.update c.nodes i m }⟩])
        { c with nodes := Function.update c.nodes i m } :=
    fun before alive step leads works lives =>
      before.snoc (.node leads works lives (node_step alive step))
  rw [same] at trace
  have started := goes trace rfl (.start rfl rfl) nofun nofun nofun
  have launch := goes started rfl (.launch rfl) nofun nofun nofun
  have test := goes launch rfl (.test rfl) nofun nofun nofun
  have elect := goes test rfl (.elect rfl rfl (free _ rfl)) nofun nofun nofun
  have flag := goes elect rfl (.flag rfl) nofun nofun nofun
  have lead := flag.snoc (.lead (node_step rfl (.lead rfl)))
  simp only [List.append_assoc] at lead
  exact ⟨_, lead⟩

theorem ran_later {x : ι ⊕ ε} {p : QueueProg (Call × Outcome)} {a : Call × Outcome}
    {t : QueueState (ι ⊕ ε)} (trace : Trace Cluster.Step start past c)
    (running : c.queue.running x = some p)
    (run : p.Runs (QueueState.sem concurrent x) c.queue.shared a t) :
    ∃ more, Trace Cluster.Step start (past ++ more)
      ({ c with queue.shared := t }.thread x (some (.pure a))) := by
  induction p generalizing c past with
  | pure value =>
      obtain ⟨rfl, rfl⟩ := run
      refine ⟨[], ?_⟩
      rw [List.append_nil, Cluster.thread, ← running, Function.update_eq_self]
      exact trace
  | step op next ih =>
      obtain ⟨r, mid, effect, rest⟩ := run
      have further := trace.snoc (.operate running effect)
      obtain ⟨more, done⟩ := ih r further (Function.update_self ..) rest
      simp only [Cluster.thread, Function.update_idem, List.append_assoc] at done
      exact ⟨_, done⟩

theorem handed_later {msg : Queue.QueueMessage} {t : QueueState (ι ⊕ ε)}
    (trace : Trace Cluster.Step start past c) (new : c.nodes i = {}) (free : LockFree c.nodes)
    (run : Queue.fetchReady.Runs (QueueState.sem concurrent (.inl i)) c.queue.shared
      (.ok (some msg)) t) (full : msg.rawData ≠ []) :
    ∃ more d e, Trace Cluster.Step start (past ++ more) d ∧ Cluster.Step d (.attempt i msg) e ∧
      e.nodes = Function.update c.nodes i leading ∧ e.queue.shared = t := by
  obtain ⟨more, led⟩ := led_later trace new free
  have called : (callProgram .fetchReady).Runs (QueueState.sem concurrent (.inl i))
      (c.led i).queue.shared (.fetchReady, .fetched (.ok (some msg))) t :=
    Prog.runs_map.mpr ⟨_, Prog.runs_map.mpr ⟨_, run, rfl⟩, rfl⟩
  obtain ⟨further, fetched⟩ := ran_later led (Function.update_self ..) called
  rw [List.append_assoc] at fetched
  exact ⟨_, _, _, fetched,
    .fetched (Function.update_self ..) (Function.update_self ..) full, rfl, rfl⟩

/-- A node crashes over its message, and the next one to lead delivers it again, when the lease
    has run out. -/
theorem delivered_again_crash : ∃ (past : List (Went Bool Unit)) (c d : Cluster Bool Unit) (i : Bool)
    (msg : Queue.QueueMessage), Trace Cluster.Step (.start 0) past c ∧
      Cluster.Step c (.attempt i msg) d ∧ (∃ x ∈ past, x.attempts msg.id) ∧
      ¬ Since (fun x => x.attempts msg.id) (fun x => x.reopens msg.id) past := by
  let id := Queue.idText 7 1
  let content := Queue.enqueuedContent (ascii "a@x") (ascii "b@y") (ascii "hi")
  let msg := Queue.parseMessage id content
  let lying (dir : Queue.QueueDir) (now : Nat) : QueueState (Bool ⊕ Unit) :=
    Queue.oneMessage (.inr ()) (Queue.msgPath dir id) id content 0 now
  let later := 301 * Queue.ticksPerSecond
  have enqueues : (callProgram (.enqueue (ascii "a@x") (ascii "b@y") (ascii "hi"))).Runs
      (QueueState.sem concurrent (.inr ())) (QueueState.initial 0) _ (lying .active 0) :=
    Prog.runs_map.mpr ⟨_, Prog.runs_map.mpr
      ⟨_, Queue.enqueue_first Queue.exactScan_covers (by decide) 0 7 1, rfl⟩, rfl⟩
  have fetches : Queue.fetchReady.Runs (QueueState.sem concurrent (.inl true)) (lying .active 0)
      (.ok (some msg)) (lying .inflight 0) :=
    Queue.fetchReady_waiting Queue.exactScan_covers (Queue.idText_ne_nil 7 1) (by decide)
  have again : Queue.fetchReady.Runs (QueueState.sem concurrent (.inl false))
      (lying .inflight later) (.ok (some msg)) (lying .inflight later) :=
    Queue.fetchReady_expired Queue.exactScan_covers (Queue.idText_ne_nil 7 1) (by decide) (by decide)
  have full : msg.rawData ≠ [] := by decide
  have begun : Trace Cluster.Step (.start 0 : Cluster Bool Unit) [] _ := .nil
  have produces : Produces (.enqueue (ascii "a@x") (ascii "b@y") (ascii "hi")) := trivial
  have producing := begun.snoc (.produce (e := ()) rfl produces)
  obtain ⟨_, enqueued⟩ := ran_later producing (Function.update_self ..) enqueues
  have waiting := enqueued.snoc (.produced (Function.update_self ..))
  obtain ⟨_, c, d, fetched, attempt, nodes, shared⟩ :=
    handed_later (i := true) waiting rfl (fun _ => rfl) fetches full
  have works : d.nodes true = leading := by
    rw [nodes, Function.update_self]
  let crashed : Node := { d.nodes true with alive := false, handle := false }
  have crashes : HaStep d.nodes (true, .crash) (Function.update d.nodes true crashed) :=
    .node (by rw [works]; rfl) .crash
  have waits : QueueState.Tick d.queue.shared (lying .inflight later) := by
    rw [shared]
    exact ⟨later, Nat.zero_le _, rfl⟩
  have expired := ((fetched.snoc attempt).snoc (.crash crashes)).snoc (.wait waits)
  have new : Function.update d.nodes true crashed false = {} := by
    rw [Function.update_of_ne Bool.false_ne_true, nodes]
    rfl
  have free : LockFree (Function.update d.nodes true crashed) := by
    intro j
    cases j with
    | true => rw [Function.update_self]
    | false => rw [new]
  obtain ⟨_, c', d', fetchedAgain, second, -⟩ := handed_later (i := false) expired new free again full
  refine ⟨_, c', d', false, _, fetchedAgain, second, ⟨⟨.attempt true msg, c, d⟩, by simp, ?_⟩,
    delivered_again fetchedAgain second⟩
  exact beq_self_eq_true _

end Crash

end EmailServer.Ha
