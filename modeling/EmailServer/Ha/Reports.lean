import EmailServer.Ha.Leadership

/-! # Who reports leadership

`stop` gives up the lock and the flag of the election, but leaves the flag that
`isLeader` returns. So a node that was stopped as the leader goes on reporting until it
is started again and loses an election.
-/

namespace EmailServer.Ha

variable {ι : Type} [DecidableEq ι] {s t : ι → Node} {past : List (Taken (ι × HaAction) (ι → Node))}
  {x : Taken (ι × HaAction) (ι → Node)}

/-- The steps that decide whether a node is a leader. -/
def HaAction.decisive : HaAction → Option HaAction
  | .lead => some .lead
  | .follow => some .follow
  | .release => some .release
  | .crash => some .crash
  | _ => none

/-- The decisive step of a node. -/
def mark (i : ι) (x : Taken (ι × HaAction) (ι → Node)) : Option HaAction :=
  if x.label.1 = i then x.label.2.decisive else none

/-- The node was stopped as the leader, and has neither led nor followed since. -/
def Retired (i : ι) (past : List (Taken (ι × HaAction) (ι → Node))) : Prop :=
  latest (mark i) past = some .release

/-- One node at most reports leadership. -/
def OneReport (s : ι → Node) : Prop :=
  ∀ i j, (s i).isLeader = true → (s j).isLeader = true → i = j

/-- No node begins to lead while another is retired. -/
def Orderly (past : List (Taken (ι × HaAction) (ι → Node))) (x : Taken (ι × HaAction) (ι → Node)) :
    Prop :=
  ∀ i j, x.label = (j, .lead) → Retired i past → i = j

theorem retired_concat {i : ι} : Retired i (past ++ [x]) ↔
    mark i x = some .release ∨ (mark i x = none ∧ Retired i past) := by
  rw [Retired, latest_concat, Option.or_eq_some_iff]
  rfl

/-- A report needs the lock, or a leader that was stopped; and a stopped leader reports. -/
structure Recalled (past : List (Taken (ι × HaAction) (ι → Node))) (s : ι → Node) : Prop where
  ordered : Ordered s
  reports : ∀ i, (s i).isLeader = true → (s i).handle = true ∨ Retired i past
  retired : ∀ i, Retired i past → (s i).isLeader = true

section Nodes

variable {free : Prop} {n m : Node} {action : HaAction}

theorem Node.Step.undecided (step : n.Step free action m) (undecided : action.decisive = none) :
    m.isLeader = n.isLeader ∧ (n.handle = true → m.handle = true) := by
  cases step with
  | release | lead | follow | crash => cases undecided
  | elect => exact ⟨rfl, fun _ => rfl⟩
  | _ => exact ⟨rfl, id⟩

theorem Node.Step.released (step : n.Step free .release m) (alive : n.alive = true)
    (ordered : n.Ordered) : m.isLeader = true := by
  cases step with
  | release closing election =>
      have absent := ordered.quiet (.inr (.inl closing))
      rcases ordered.reported election with lead | leader
      · rw [absent] at lead
        cases lead
      · simp [Node.isLeader, alive, leader]

theorem Node.Step.led (step : n.Step free .lead m) (alive : n.alive = true) (ordered : n.Ordered) :
    n.handle = true ∧ m.handle = true ∧ m.isLeader = true := by
  cases step with
  | lead leading =>
      have held := ordered.holds (.inl leading)
      exact ⟨held, held, by simp [Node.isLeader, alive]⟩

theorem Node.Step.reports (step : n.Step free action m) (reports : m.isLeader = true)
    (other : action ≠ .lead) : n.isLeader = true := by
  cases step with
  | lead => exact absurd rfl other
  | follow | crash => simp [Node.isLeader] at reports
  | _ => exact reports

end Nodes

theorem fresh_recalled : Recalled [] (fresh : ι → Node) where
  ordered := fresh_ordered
  reports _ reports := nomatch reports
  retired _ retired := nomatch retired

theorem step_recalled {l : ι × HaAction} (recalled : Recalled past s) (step : HaStep s l t) :
    Recalled (past ++ [⟨l, s, t⟩]) t := by
  have ordered := step_ordered step recalled.ordered
  cases step with
  | @node i action n alive step =>
      have inOrder := recalled.ordered.nodes i alive
      have others : ∀ j, j ≠ i → (Retired j (past ++ [⟨(i, action), s, Function.update s i n⟩]) ↔
          Retired j past) := by
        intro j other
        simp [retired_concat, mark, Ne.symm other]
      have own : Retired i (past ++ [⟨(i, action), s, Function.update s i n⟩]) ↔
          action.decisive = some .release ∨ action.decisive = none ∧ Retired i past := by
        simp [retired_concat, mark]
      refine ⟨ordered, ?_, ?_⟩
      · intro j reports
        by_cases this : j = i
        · subst this
          rw [Function.update_self] at reports ⊢
          rw [own]
          cases decided : action.decisive with
          | none =>
              obtain ⟨same, keeps⟩ := step.undecided decided
              exact (recalled.reports j (same ▸ reports)).imp keeps fun retired => .inr ⟨rfl, retired⟩
          | some decision =>
              cases step with
              | release => exact .inr (.inl (decided.symm.trans rfl))
              | lead leading => exact .inl (inOrder.holds (.inl leading))
              | follow | crash => simp [Node.isLeader] at reports
              | _ => cases decided
        · rw [Function.update_of_ne this] at reports ⊢
          rw [others j this]
          exact recalled.reports j reports
      · intro j retired
        by_cases this : j = i
        · subst this
          rw [Function.update_self]
          rcases own.mp retired with release | ⟨undecided, before⟩
          · cases step with
            | release closing election =>
                have step : (s j).Step (LockFree s) .release _ := .release closing election
                exact step.released alive inOrder
            | _ => cases release
          · rw [(step.undecided undecided).1]
            exact recalled.retired j before
        · rw [Function.update_of_ne this]
          exact recalled.retired j ((others j this).mp retired)

/-- With one report before a step, there is one after it unless a node begins to lead
    while another is retired. -/
theorem one_report_step {l : ι × HaAction} (recalled : Recalled past s) (step : HaStep s l t)
    (one : OneReport s) : OneReport t ↔ Orderly past ⟨l, s, t⟩ := by
  cases step with
  | @node i action n alive step =>
      have inOrder := recalled.ordered.nodes i alive
      constructor
      · intro after k j label retired
        obtain ⟨rfl, rfl⟩ := Prod.mk.inj label
        by_contra other
        have reportsK : (Function.update s i n k).isLeader = true := by
          rw [Function.update_of_ne other]
          exact recalled.retired k retired
        have reportsI : (Function.update s i n i).isLeader = true := by
          rw [Function.update_self]
          exact (step.led alive inOrder).2.2
        exact other (after k i reportsK reportsI)
      · intro orderly
        by_cases leads : action = .lead
        · subst leads
          -- every report is that of the node that leads
          have alone : ∀ k, (Function.update s i n k).isLeader = true → k = i := by
            intro k reports
            by_contra other
            rw [Function.update_of_ne other] at reports
            rcases recalled.reports k reports with held | retired
            · exact other (recalled.ordered.exclusive k i held (step.led alive inOrder).1)
            · exact other (orderly k i rfl retired)
          intro j k reportsJ reportsK
          rw [alone j reportsJ, alone k reportsK]
        · have before : ∀ k, (Function.update s i n k).isLeader = true → (s k).isLeader = true := by
            intro k reports
            by_cases this : k = i
            · subst this
              rw [Function.update_self] at reports
              exact step.reports reports leads
            · rwa [Function.update_of_ne this] at reports
          intro j k reportsJ reportsK
          exact one j k (before j reportsJ) (before k reportsK)

/-- What carries the reports through a run as long as one node at most reports. -/
structure OneRecalled (past : List (Taken (ι × HaAction) (ι → Node))) (s : ι → Node) : Prop where
  recalled : Recalled past s
  one : OneReport s

/-- In every run, one node at most reports leadership after each step if and only if no
    node begins to lead while another was stopped as the leader and has neither led nor
    followed since. -/
theorem one_report_iff (run : Trace HaStep (fresh : ι → Node) past s) :
    Along (fun _ x => OneReport x.after) [] past ↔ Along Orderly [] past := by
  have initial : OneRecalled [] (fresh : ι → Node) :=
    ⟨fresh_recalled, fun _ _ reports => nomatch reports⟩
  constructor
  · intro reports
    have along := (run.invariant reports initial ?_).2
    · apply along.mono
      rintro past x ⟨⟨step, after⟩, before, _⟩
      exact (one_report_step before.recalled step before.one).mp after
    · intro past s l t before step after
      exact ⟨step_recalled before.recalled step, after⟩
  · intro orderly
    have along := (run.invariant orderly initial ?_).2
    · apply along.mono
      rintro past x ⟨_, _, after⟩
      exact after.one
    · intro past s l t before step orderly
      exact ⟨step_recalled before.recalled step,
        (one_report_step before.recalled step before.one).mpr orderly⟩

/-- Where no leader is stopped, none is retired. -/
theorem orderly_unreleased {earlier : List (Taken (ι × HaAction) (ι → Node))}
    (never : ∀ x ∈ earlier ++ past, x.label.2 ≠ .release) : Along Orderly earlier past := by
  induction past generalizing earlier with
  | nil => exact trivial
  | cons x past ih =>
      refine ⟨fun i j _ retired => ?_, ih (by simpa using never)⟩
      obtain ⟨y, member, marked⟩ := List.mem_filterMap.mp (List.mem_of_getLast? retired)
      have released : y.label.2 = .release := by
        unfold mark at marked
        split at marked
        · revert marked
          cases y.label.2 <;> simp [HaAction.decisive]
        · cases marked
      exact absurd released (never y (List.mem_append_left _ member))

/-- The leader crashes, and the other node becomes the leader. -/
theorem one_report_iff_handed_over : ∃ past s, Trace HaStep (fresh : Bool → Node) past s ∧
    (∀ i, ∃ x ∈ past, x.label = (i, .lead)) ∧ (s true).isLeader = true ∧
    Along (fun _ x => OneReport x.after) [] past := by
  have new : Trace HaStep (fresh : Bool → Node) [] fresh := .nil
  obtain ⟨past, leads, first⟩ := becomes_leader (i := false) new rfl fun _ => rfl
  have crashed := leads.snoc (node_step rfl .crash)
  obtain ⟨past, run, labels⟩ := becomes_leader (i := true) crashed rfl fun i => by cases i <;> rfl
  rw [List.map_append, first] at labels
  have taken : ∀ l, l ∈ past.map Taken.label ↔ ∃ x ∈ past, x.label = l := fun l => List.mem_map
  refine ⟨past, _, run, fun i => (taken _).mp ?_, rfl,
    (one_report_iff run).mpr (orderly_unreleased fun x member released => ?_)⟩
  · rw [labels]
    cases i <;> decide
  · have label : x.label ∈ past.map Taken.label := List.mem_map_of_mem member
    rw [labels] at label
    have unreleased : ∀ l ∈ [] ++ becoming false ++ [(false, HaAction.crash)] ++ becoming true,
        l.2 ≠ .release := by decide
    exact unreleased _ label released

/-! ## A leader that is stopped -/

theorem one_report_last (run : Trace HaStep (fresh : ι → Node) past s)
    (reports : Along (fun _ x => OneReport x.after) [] past) : OneReport s := by
  cases run with
  | nil => exact fun _ _ reports => nomatch reports
  | snoc _ _ => exact (along_concat.mp reports).2

theorem leader_stops {start : ι → Node} {i : ι}
    (run : Trace HaStep start past (Function.update s i leading)) :
    ∃ past', Trace HaStep start past' (Function.update s i { leader := true }) := by
  have work := run.snoc (node_step rfl (.work rfl))
  have sleep := work.snoc (node_step rfl (.sleep rfl))
  have stop := sleep.snoc (node_step rfl (.stop rfl rfl))
  have test := stop.snoc (node_step rfl (.test rfl))
  have join := test.snoc (node_step rfl (.join rfl (.inl rfl)))
  have release := join.snoc (node_step rfl (.release rfl rfl))
  exact ⟨_, release.snoc (node_step rfl (.unflag rfl))⟩

/-- A leader is stopped, another node becomes the leader, and both report. -/
theorem two_reports : ∃ past s, Trace HaStep (fresh : Bool → Node) past s ∧
    (s false).isLeader = true ∧ (s true).isLeader = true ∧
    ¬ Along (fun _ x => OneReport x.after) [] past := by
  have new : Trace HaStep (fresh : Bool → Node) [] fresh := .nil
  obtain ⟨past, leads, -⟩ := becomes_leader (i := false) new rfl fun _ => rfl
  obtain ⟨past, stopped⟩ := leader_stops leads
  obtain ⟨past, both, -⟩ := becomes_leader (i := true) stopped rfl fun i => by cases i <;> rfl
  exact ⟨past, _, both, rfl, rfl, fun reports =>
    absurd (one_report_last both reports false true rfl rfl) (by decide)⟩

end EmailServer.Ha
