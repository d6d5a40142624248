import Mathlib.Data.Finite.Prod
import Mathlib.Data.Fintype.Card
import Mathlib.Logic.Relation

/-! # Following references

What follows references, of which there are finitely many targets, comes to an end if it
comes to no target from which it gets back to it.
-/

namespace EmailServer

open Relation

variable {α : Type} {r : α → α → Prop} {P : α → Prop}

/-- An induction along the references. -/
theorem chase (finite : {b | ∃ a, r a b}.Finite) (step : ∀ a, (∀ b, r a b → P b) → P a) {a : α}
    (acyclic : ∀ b, ReflTransGen r a b → ¬ TransGen r b b) : P a := by
  -- of what comes behind `a`, the later is the smaller
  let later : {b // TransGen r a b} → {b // TransGen r a b} → Prop := fun x y => TransGen r y.1 x.1
  have few : Finite {b // TransGen r a b} := by
    refine (finite.subset ?_).to_subtype
    intro b behind
    obtain ⟨c, -, last⟩ := TransGen.tail'_iff.mp behind
    exact ⟨c, last⟩
  have trans : IsTrans _ later := ⟨fun _ _ _ first second => second.trans first⟩
  have irrefl : Std.Irrefl later := ⟨fun x back => acyclic x.1 x.2.to_reflTransGen back⟩
  have wellFounded : WellFounded later := Finite.wellFounded_of_trans_of_irrefl later
  have behind : ∀ x : {b // TransGen r a b}, P x.1 := fun x => by
    induction x using wellFounded.induction with
    | _ x ih => exact step x.1 fun b next => ih ⟨b, x.2.tail next⟩ (.single next)
  exact step a fun b next => behind ⟨b, .single next⟩

end EmailServer
