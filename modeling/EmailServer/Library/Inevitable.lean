import Mathlib.Order.WellFounded

/-! # What every run comes to

`Inevitably sure step goal s` says that from `s` every run reaches the goal. A run that
has not reached it can go on by a step that is `sure` to be taken if no other is, and it
does not go on for ever.
-/

namespace EmailServer

/-- Every run from `s` reaches `goal`. A run makes the steps `step`, of which those
    that are not `sure` may fail to come. -/
inductive Inevitably {σ : Type} (sure step : σ → σ → Prop) (goal : σ → Prop) : σ → Prop
  | now {s} : goal s → Inevitably sure step goal s
  | later {s t} : sure s t → (∀ u, step s u → Inevitably sure step goal u) →
      Inevitably sure step goal s

namespace Inevitably

variable {σ : Type} {sure step : σ → σ → Prop} {goal : σ → Prop} {s : σ}

/-- It is enough that, under an invariant and short of the goal, there is a sure step and
    steps go down in a well-founded order. -/
theorem of_measure {μ : Type} {below : μ → μ → Prop} (wf : WellFounded below) (measure : σ → μ)
    (inv : σ → Prop) (kept : ∀ s t, inv s → step s t → inv t)
    (down : ∀ s t, inv s → ¬ goal s → step s t → below (measure t) (measure s))
    (goes : ∀ s, inv s → ¬ goal s → ∃ t, sure s t) (start : inv s) :
    Inevitably sure step goal s := by
  induction s using (InvImage.wf measure wf).induction with
  | h s ih =>
      by_cases done : goal s
      · exact .now done
      · obtain ⟨t, next⟩ := goes s start done
        exact .later next fun u move => ih u (down s u start done move) (kept s u start move)

theorem mono {goal' : σ → Prop} (h : Inevitably sure step goal s)
    (weaken : ∀ t, goal t → goal' t) : Inevitably sure step goal' s := by
  induction h with
  | now done => exact .now (weaken _ done)
  | later next _ ih => exact .later next ih

/-- The goal is reached together with what every step keeps. -/
theorem keeping {inv : σ → Prop} (h : Inevitably sure step goal s)
    (kept : ∀ s t, inv s → step s t → inv t) (start : inv s) :
    Inevitably sure step (fun t => goal t ∧ inv t) s := by
  induction h with
  | now done => exact .now ⟨done, start⟩
  | later next _ ih => exact .later next fun u move => ih u move (kept _ _ start move)

end Inevitably

end EmailServer
