import EmailServer.Library.History

/-! # Traces of labelled steps

A system moves by labelled steps. A trace lists the steps taken so far, oldest
first, each with the states around it, so that a law about a run can speak of
the steps before it.
-/

namespace EmailServer

/-- A step that was taken. -/
structure Taken (Label σ : Type) where
  label : Label
  before : σ
  after : σ

/-- The runs from `start`, with the steps they consist of and the state they end in. -/
inductive Trace {Label σ : Type} (Step : σ → Label → σ → Prop) (start : σ) :
    List (Taken Label σ) → σ → Prop
  | nil : Trace Step start [] start
  | snoc {past s l t} : Trace Step start past s → Step s l t →
      Trace Step start (past ++ [⟨l, s, t⟩]) t

namespace Trace

variable {Label σ : Type} {Step : σ → Label → σ → Prop} {start s t : σ}
  {past : List (Taken Label σ)}

/-- An invariant of the history and the state, under a condition on the steps. -/
theorem invariant {inv : List (Taken Label σ) → σ → Prop}
    {P : List (Taken Label σ) → Taken Label σ → Prop} (trace : Trace Step start past s)
    (along : Along P [] past) (initial : inv [] start)
    (step : ∀ past s l t, inv past s → Step s l t → P past ⟨l, s, t⟩ → inv (past ++ [⟨l, s, t⟩]) t) :
    inv past s ∧
      Along (fun past x => (Step x.before x.label x.after ∧ P past x) ∧ inv past x.before ∧
        inv (past ++ [x]) x.after) [] past := by
  induction trace with
  | nil => exact ⟨initial, trivial⟩
  | snoc _ taken ih =>
      obtain ⟨earlier, here⟩ := along_concat.mp along
      obtain ⟨met, before⟩ := ih earlier
      have left := step _ _ _ _ met taken here
      exact ⟨left, along_concat.mpr ⟨before, ⟨taken, here⟩, met, left⟩⟩

/-- An invariant that holds whatever the steps are. -/
theorem always {inv : List (Taken Label σ) → σ → Prop} (trace : Trace Step start past s)
    (initial : inv [] start)
    (step : ∀ past s l t, inv past s → Step s l t → inv (past ++ [⟨l, s, t⟩]) t) :
    inv past s ∧
      Along (fun past x => Step x.before x.label x.after ∧ inv past x.before ∧
        inv (past ++ [x]) x.after) [] past := by
  obtain ⟨last, along⟩ := trace.invariant (Along.trivial [] past) initial
    fun past s l t met taken _ => step past s l t met taken
  exact ⟨last, along.mono fun _ _ known => ⟨known.1.1, known.2⟩⟩

theorem earlier (trace : Trace Step start past s) :
    Along (fun past x => Step x.before x.label x.after ∧ Trace Step start past x.before) [] past := by
  induction trace with
  | nil => trivial
  | snoc before taken ih => exact along_concat.mpr ⟨ih, taken, before⟩

theorem joined (trace : Trace Step start past s) :
    Along (fun past x => Step x.before x.label x.after ∧
      ∀ y, past.getLast? = some y → Step y.before y.label y.after ∧ y.after = x.before) [] past := by
  let inv (past : List (Taken Label σ)) (s : σ) : Prop :=
    ∀ y, past.getLast? = some y → Step y.before y.label y.after ∧ y.after = s
  have initial : inv [] start := by simp [inv]
  have step : ∀ past s l t, inv past s → Step s l t → inv (past ++ [⟨l, s, t⟩]) t := by
    intro past s l t _ taken y last
    rw [List.getLast?_concat] at last
    rw [← Option.some.inj last]
    exact ⟨taken, rfl⟩
  exact (trace.always initial step).2.mono fun _ _ known => ⟨known.1, known.2.1⟩

theorem steps (trace : Trace Step start past s) : ∀ x ∈ past, Step x.before x.label x.after := by
  induction trace with
  | nil => simp
  | snoc _ taken ih => exact forall_concat ih taken

theorem split {earlier since : List (Taken Label σ)} {x : Taken Label σ}
    (trace : Trace Step start (earlier ++ x :: since) s) :
    Trace Step start earlier x.before ∧ Step x.before x.label x.after ∧
      Trace Step x.after since s := by
  generalize all : earlier ++ x :: since = past at trace
  induction trace generalizing since with
  | nil => simp at all
  | snoc before taken ih =>
      rcases concat_split.mp all.symm with ⟨rfl, rfl, rfl⟩ | ⟨front, rfl, rfl⟩
      · exact ⟨before, taken, .nil⟩
      · obtain ⟨first, step, rest⟩ := ih rfl
        exact ⟨first, step, .snoc rest taken⟩

/-- A part of the system, which takes the steps that `read` finds in the labels. -/
theorem project {Label' τ : Type} {Step' : τ → Label' → τ → Prop} {view : σ → τ}
    {read : Label → Option Label'} (trace : Trace Step start past s)
    (rests : ∀ s l t, Step s l t → read l = none → view t = view s)
    (moves : ∀ s l t l', Step s l t → read l = some l' → Step' (view s) l' (view t)) :
    Trace Step' (view start)
      (past.filterMap fun x => (read x.label).map fun l' => ⟨l', view x.before, view x.after⟩)
      (view s) := by
  induction trace with
  | nil => exact .nil
  | @snoc past s l t _ taken ih =>
      rw [List.filterMap_append]
      cases found : read l with
      | none =>
          rw [rests s l t taken found]
          simpa [found] using ih
      | some l' => simpa [found] using ih.snoc (moves s l t l' taken found)

end Trace

end EmailServer
