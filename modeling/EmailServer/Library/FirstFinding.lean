import Mathlib.Data.List.MinMax
import Mathlib.Data.List.Perm.Basic

/-! # The first finding and the worst one

Items are graded from `⊥`, which is no finding, upwards. A search that stops at its first
finding returns the worst grade, whatever the order of the items is, only where all
findings have one grade.
-/

namespace EmailServer

variable {α V : Type} [LinearOrder V] [OrderBot V] {grade : α → V} {items : List α} {a : α}

/-- The grade of the first item that has a finding. -/
def firstFinding (grade : α → V) (items : List α) : V :=
  ((items.find? (grade · ≠ ⊥)).map grade).getD ⊥

def worst (grade : α → V) (items : List α) : V := (items.map grade).foldr max ⊥

theorem firstFinding_cons : firstFinding grade (a :: items) =
    if grade a = ⊥ then firstFinding grade items else grade a := by
  by_cases clear : grade a = ⊥ <;> simp [firstFinding, clear]

theorem firstFinding_find {p : α → Prop} [DecidablePred p] (finds : ∀ a, grade a ≠ ⊥ ↔ p a) :
    firstFinding grade items = ((items.find? (p ·)).map grade).getD ⊥ := by
  induction items with
  | nil => rfl
  | cons a items ih =>
      rw [firstFinding_cons, ih]
      by_cases clear : grade a = ⊥
      · have skipped : ¬ p a := fun found => (finds a).mpr found clear
        simp [clear, skipped]
      · simp [clear, (finds a).mp clear]

theorem firstFinding_cases : (firstFinding grade items = ⊥ ∧ ∀ a ∈ items, grade a = ⊥) ∨
    ∃ a ∈ items, firstFinding grade items = grade a ∧ grade a ≠ ⊥ := by
  cases found : items.find? (grade · ≠ ⊥) with
  | none =>
      refine .inl ⟨by rw [firstFinding, found]; rfl, fun a member => ?_⟩
      simpa using List.find?_eq_none.mp found a member
  | some a =>
      refine .inr ⟨a, List.mem_of_find?_eq_some found, by rw [firstFinding, found]; rfl, ?_⟩
      simpa using List.find?_some found

theorem le_worst (member : a ∈ items) : grade a ≤ worst grade items := by
  induction items with
  | nil => cases member
  | cons b items ih =>
      rw [worst, List.map_cons, List.foldr_cons]
      rcases List.mem_cons.mp member with rfl | later
      · exact le_max_left _ _
      · exact (ih later).trans (le_max_right _ _)

theorem worst_le {bound : V} (below : ∀ a ∈ items, grade a ≤ bound) :
    worst grade items ≤ bound := by
  induction items with
  | nil => exact bot_le
  | cons b items ih =>
      obtain ⟨here, later⟩ := List.forall_mem_cons.mp below
      exact max_le here (ih later)

/-- The first finding is never worse than the worst. -/
theorem firstFinding_eq_worst : firstFinding grade items = worst grade items ↔
    ∀ a ∈ items, grade a ≤ firstFinding grade items := by
  constructor
  · intro same a member
    rw [same]
    exact le_worst member
  · intro above
    refine le_antisymm ?_ (worst_le above)
    rcases @firstFinding_cases α V _ _ grade items with ⟨nothing, -⟩ | ⟨a, member, first, -⟩
    · rw [nothing]
      exact bot_le
    · rw [first]
      exact le_worst member

/-- The order does not matter if and only if all findings are alike. -/
theorem firstFinding_perm : (∀ items', items.Perm items' →
      firstFinding grade items' = firstFinding grade items) ↔
    ∀ a ∈ items, ∀ b ∈ items, grade a ≠ ⊥ → grade b ≠ ⊥ → grade a = grade b := by
  classical
  constructor
  · intro same
    -- any finding can be the first
    have each : ∀ a ∈ items, grade a ≠ ⊥ → grade a = firstFinding grade items := by
      intro a member found
      have moved := same _ (List.perm_cons_erase member)
      rwa [firstFinding_cons, if_neg found] at moved
    intro a memberA b memberB foundA foundB
    rw [each a memberA foundA, each b memberB foundB]
  · intro alike items' perm
    rcases @firstFinding_cases α V _ _ grade items with ⟨nothing, clear⟩ | ⟨a, member, first, found⟩ <;>
    rcases @firstFinding_cases α V _ _ grade items' with ⟨nothing', clear'⟩ |
      ⟨a', member', first', found'⟩
    · rw [nothing, nothing']
    · exact absurd (clear a' (perm.mem_iff.mpr member')) found'
    · exact absurd (clear' a (perm.mem_iff.mp member)) found
    · rw [first, first']
      exact alike a' (perm.mem_iff.mpr member') a member found' found

/-- One more item never gives a milder grade if and only if no finding is milder. -/
theorem firstFinding_insert : (∀ front a back, front ++ back = items →
      firstFinding grade items ≤ firstFinding grade (front ++ a :: back)) ↔
    ∀ a, grade a ≠ ⊥ → firstFinding grade items ≤ grade a := by
  constructor
  · intro monotone a found
    have first := monotone [] a items rfl
    rwa [List.nil_append, firstFinding_cons, if_neg found] at first
  · intro least front a back whole
    subst whole
    rcases @firstFinding_cases α V _ _ grade (front ++ a :: back) with
      ⟨-, clear⟩ | ⟨b, -, first, found⟩
    · rcases @firstFinding_cases α V _ _ grade (front ++ back) with ⟨before, -⟩ | ⟨b, member, -, found⟩
      · rw [before]
        exact bot_le
      · refine absurd (clear b ?_) found
        exact (List.Sublist.append_left (List.sublist_cons_self a back) front).subset member
    · rw [first]
      exact least b found

end EmailServer
