import Mathlib.Algebra.Order.Ring.Nat
import Mathlib.Data.List.Basic
import Mathlib.Tactic.ByContra

/-! # Spelled texts

A text is spelled item by item, and an item is read back the way it is spelled or as what it
means. Where the reading of an item is never the shorter one, the texts agree only if all the
items do: nothing that one item adds is made up for by another.
-/

namespace EmailServer.Spelling

variable {ι α : Type*} {items : List ι} {read meant : ι → List α}

theorem length_flatMap_le (short : ∀ item ∈ items, (meant item).length ≤ (read item).length) :
    (items.flatMap meant).length ≤ (items.flatMap read).length := by
  induction items with
  | nil => exact le_rfl
  | cons item items ih =>
      obtain ⟨here, later⟩ := List.forall_mem_cons.mp short
      simp only [List.flatMap_cons, List.length_append]
      exact Nat.add_le_add here (ih later)

theorem flatMap_eq_iff (short : ∀ item ∈ items, (meant item).length ≤ (read item).length) :
    items.flatMap read = items.flatMap meant ↔ ∀ item ∈ items, read item = meant item := by
  induction items with
  | nil => simp
  | cons item items ih =>
      obtain ⟨here, later⟩ := List.forall_mem_cons.mp short
      rw [List.flatMap_cons, List.flatMap_cons, List.forall_mem_cons, ← ih later]
      constructor
      · intro same
        -- both parts are at least as long, so neither is longer
        have total := congrArg List.length same
        have rest := length_flatMap_le later
        simp only [List.length_append] at total
        exact List.append_inj same (by omega)
      · rintro ⟨first, rest⟩
        rw [first, rest]

/-- An item that is spelled longer than it is meant is never read back as it is meant. -/
theorem flatMap_eq_iff_forall (p : ι → Prop)
    (plain : ∀ item ∈ items, p item → read item = meant item)
    (longer : ∀ item ∈ items, ¬ p item → (meant item).length < (read item).length) :
    items.flatMap read = items.flatMap meant ↔ ∀ item ∈ items, p item := by
  rw [flatMap_eq_iff]
  · constructor
    · intro same item member
      by_contra special
      exact absurd (congrArg List.length (same item member)) (longer item member special).ne'
    · exact fun all item member => plain item member (all item member)
  · intro item member
    by_cases holds : p item
    · rw [plain item member holds]
    · exact (longer item member holds).le

end EmailServer.Spelling
