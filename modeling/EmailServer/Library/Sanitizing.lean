import Mathlib.Data.List.Basic

/-! # Sanitizing

A sanitizer goes with a validator: it leaves alone what the validator accepts, and makes of
anything else something that is accepted, or a blank that stands for nothing at all.
-/

namespace EmailServer

variable {α : Type*} {accepts : α → Prop} {blank : α} {clean repair : α → α}

structure Sanitizes (accepts : α → Prop) (blank : α) (clean : α → α) : Prop where
  lands : ∀ s, clean s = blank ∨ accepts (clean s)
  keeps : ∀ s, accepts s → clean s = s
  blank : clean blank = blank

namespace Sanitizes

theorem idem (sanitizes : Sanitizes accepts blank clean) (s : α) : clean (clean s) = clean s := by
  rcases sanitizes.lands s with nothing | accepted
  · rw [nothing, sanitizes.blank]
  · exact sanitizes.keeps _ accepted

/-- A repair that is checked afterwards has only to leave alone what needs none. -/
theorem checked [DecidablePred accepts] (keeps : ∀ s, accepts s → repair s = s)
    (nothing : repair blank = blank) :
    Sanitizes accepts blank fun s => if accepts (repair s) then repair s else blank where
  lands s := by
    by_cases repaired : accepts (repair s)
    · exact .inr (by rwa [if_pos repaired])
    · exact .inl (if_neg repaired)
  keeps s accepted := by rw [keeps s accepted, if_pos accepted]
  blank := by rw [nothing, ite_self]

theorem filter_take {β : Type*} (p : β → Bool) (n : Nat) :
    Sanitizes (fun s => s ≠ [] ∧ s.length ≤ n ∧ ∀ c ∈ s, p c = true) [] fun s =>
      (s.filter p).take n where
  lands s := by
    by_cases nothing : (s.filter p).take n = []
    · exact .inl nothing
    · refine .inr ⟨nothing, List.length_take_le n _, fun c member => ?_⟩
      exact (List.mem_filter.mp (List.mem_of_mem_take member)).2
  keeps s accepted := by
    obtain ⟨-, short, wanted⟩ := accepted
    rw [List.filter_eq_self.mpr wanted, List.take_of_length_le short]
  blank := List.take_nil

end Sanitizes

end EmailServer
