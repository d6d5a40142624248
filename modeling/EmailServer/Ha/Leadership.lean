import EmailServer.Ha.HaController

/-! # One leader works

The flag of the election is set only while the handle is open, except at the end of
`stop`, when the thread is gone. So a thread that works holds the lock.
-/

namespace EmailServer.Ha

/-- What is in order on a node that has not crashed. -/
structure Node.Ordered (n : Node) : Prop where
  started : n.control = .starting → n.running = true
  /-- The thread has not been created, or has been joined. -/
  quiet : n.control = .starting ∨ n.control = .closing ∨ n.control = .unflagging ∨
    (n.control = .idle ∧ n.running = false) → n.loop = .absent
  flagged : n.election = true → n.handle = true ∨ n.control = .unflagging
  acquired : n.loop = .acquired → n.handle = true
  leading : n.loop = .lead ∨ n.loop = .work → n.election = true
  following : n.loop = .follow → n.election = false
  reported : n.election = true → n.loop = .lead ∨ n.leader = true

namespace Node

variable {free : Prop} {n m : Node} {action : HaAction}

theorem fresh_ordered : Ordered {} := by
  constructor <;> decide

/-- Every step but a crash keeps the order of its node. A step of the thread finds it
    present, so the owner is not at the end of `stop`; a step at the end of `stop` finds
    the thread gone, and no phase of it asks for the lock or the flag. -/
theorem Step.ordered (step : n.Step free action m) (lives : action ≠ .crash)
    (ordered : n.Ordered) : m.Ordered := by
  obtain ⟨started, quiet, flagged, acquired, leading, following, reported⟩ := ordered
  cases step with
  | crash => exact absurd rfl lives
  | startAgain | stopAgain => constructor <;> assumption
  | join _ ended =>
      rcases ended with finished | absent
      · constructor <;> simp_all
      · constructor <;> simp_all
  | start | launch | launchFails | stop | release | unflagNone | unflag => constructor <;> simp_all
  | test =>
      by_cases running : n.running = true
      · constructor <;> simp_all
      · constructor <;> simp_all
  | electCached | elect | electFails | flag | lead | work | follow | sleep =>
      constructor <;> simp_all

theorem Step.opens (step : n.Step free action m) (opened : m.handle = true) :
    n.handle = true ∨ free := by
  cases step with
  | elect _ _ isFree => exact .inr isFree
  | release | crash => cases opened
  | _ => exact .inl opened

/-- A thread that leads or works holds the lock. -/
theorem Ordered.holds (ordered : n.Ordered) (leads : n.loop = .lead ∨ n.loop = .work) :
    n.handle = true := by
  rcases ordered.flagged (ordered.leading leads) with held | unflagging
  · exact held
  · have absent := ordered.quiet (.inr (.inr (.inl unflagging)))
    rcases leads with lead | work
    · rw [absent] at lead
      cases lead
    · rw [absent] at work
      cases work

end Node

variable {ι : Type} [DecidableEq ι] {s t : ι → Node} {l : ι × HaAction}
  {past : List (Taken (ι × HaAction) (ι → Node))}

/-- The living nodes are in order, and one handle at most has the lock. -/
structure Ordered (s : ι → Node) : Prop where
  nodes : ∀ i, (s i).alive = true → (s i).Ordered
  exclusive : ∀ i j, (s i).handle = true → (s j).handle = true → i = j

omit [DecidableEq ι] in
theorem fresh_ordered : Ordered (fresh : ι → Node) where
  nodes _ _ := Node.fresh_ordered
  exclusive _ _ held := nomatch held

theorem step_ordered (step : HaStep s l t) (ordered : Ordered s) : Ordered t := by
  cases step with
  | @node i action n alive step =>
      constructor
      · intro j lives
        by_cases this : j = i
        · subst this
          rw [Function.update_self] at lives ⊢
          refine step.ordered ?_ (ordered.nodes j alive)
          rintro rfl
          cases step
          cases lives
        · rw [Function.update_of_ne this] at lives ⊢
          exact ordered.nodes j lives
      · have opens : ∀ j, (Function.update s i n j).handle = true → (s j).handle = true ∨ j = i := by
          intro j held
          by_cases this : j = i
          · exact .inr this
          · rw [Function.update_of_ne this] at held
            exact .inl held
        -- if the node had no handle before, no other node has one
        have alone : ∀ j, n.handle = true → (s j).handle = true → j = i := by
          intro j opened held
          rcases step.opens opened with before | free
          · exact ordered.exclusive j i held before
          · rw [free j] at held
            cases held
        intro j k heldJ heldK
        rcases opens j heldJ with beforeJ | rfl <;> rcases opens k heldK with beforeK | rfl
        · exact ordered.exclusive j k beforeJ beforeK
        · rw [Function.update_self] at heldK
          exact alone j heldK beforeJ
        · rw [Function.update_self] at heldJ
          exact (alone k heldJ beforeK).symm
        · rfl

theorem run_ordered (run : Trace HaStep fresh past s) : Ordered s :=
  (run.always fresh_ordered fun _ _ _ _ ordered step => step_ordered step ordered).1

/-- In every run, whatever is started and stopped and crashes, one node at most is
    inside `RetryWorker::runOnce`. -/
theorem single_worker (run : Trace HaStep (fresh : ι → Node) past s) {i j : ι}
    (workingI : (s i).Working) (workingJ : (s j).Working) : i = j := by
  have ordered := run_ordered run
  exact ordered.exclusive i j
    ((ordered.nodes i workingI.1).holds (.inr workingI.2))
    ((ordered.nodes j workingJ.1).holds (.inr workingJ.2))

/-! ## A leader -/

/-- The first leader, at work. -/
def leading : Node where
  running := true
  leader := true
  election := true
  handle := true
  loop := .work

theorem node_step {i : ι} {n m : Node} {action : HaAction} (alive : n.alive = true)
    (step : n.Step (LockFree (Function.update s i n)) action m) :
    HaStep (Function.update s i n) (i, action) (Function.update s i m) := by
  have taken := @HaStep.node _ _ (Function.update s i n) i action m
  rw [Function.update_self, Function.update_idem] at taken
  exact taken alive step

/-- The steps of a controller that becomes the leader. -/
def becoming (i : ι) : List (ι × HaAction) :=
  [(i, .start), (i, .launch), (i, .test), (i, .elect), (i, .flag), (i, .lead)]

theorem becomes_leader {start : ι → Node} {i : ι} (run : Trace HaStep start past s) (new : s i = {})
    (free : LockFree s) : ∃ past', Trace HaStep start past' (Function.update s i leading) ∧
      past'.map Taken.label = past.map Taken.label ++ becoming i := by
  have free : ∀ n : Node, n.handle = false → LockFree (Function.update s i n) := by
    intro n closed j
    by_cases this : j = i
    · rw [this, Function.update_self, closed]
    · rw [Function.update_of_ne this, free j]
  rw [← Function.update_eq_self i s, new] at run
  have start := run.snoc (node_step rfl (.start rfl rfl))
  have launch := start.snoc (node_step rfl (.launch rfl))
  have test := launch.snoc (node_step rfl (.test rfl))
  have elect := test.snoc (node_step rfl (.elect rfl rfl (free _ rfl)))
  have flag := elect.snoc (node_step rfl (.flag rfl))
  exact ⟨_, flag.snoc (node_step rfl (.lead rfl)), by simp [becoming]⟩

/-- Of two controllers the one that leads is the one at work. -/
theorem single_worker_leading : ∃ past s, Trace HaStep (fresh : Bool → Node) past s ∧
    (s true).Working ∧ ∀ i, (s i).Working → i = true := by
  have new : Trace HaStep (fresh : Bool → Node) [] fresh := .nil
  obtain ⟨past, run, -⟩ := becomes_leader (i := true) new rfl fun _ => rfl
  have working : (Function.update (fresh : Bool → Node) true leading true).Working := ⟨rfl, rfl⟩
  exact ⟨past, _, run, working, fun i also => single_worker run also working⟩

end EmailServer.Ha
