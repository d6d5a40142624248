import Mathlib.Data.List.Nodup
import Mathlib.Logic.Function.Basic
import Mathlib.Order.Nat

/-! # Handles that are given again

A table gives handles to holders, one to each, and may give a handle that was closed
to the next holder. Whoever knows a handle can close it: a holder that closes it a
second time may hit the one that has it by then.
-/

namespace EmailServer

/-- A holder, and the handle it was given. -/
structure Held (Handle : Type) where
  holder : Nat
  handle : Handle
  deriving DecidableEq

structure HandleTable (Handle : Type) where
  /-- The holder of an open handle. -/
  owner : Handle → Option Nat
  /-- How many holders there have been. -/
  given : Nat

namespace HandleTable

variable {Handle : Type}

def empty : HandleTable Handle := ⟨fun _ => none, 0⟩

/-- No one but the holders there have been has a handle. -/
def Known (table : HandleTable Handle) : Prop :=
  ∀ handle holder, table.owner handle = some holder → holder < table.given

/-- If the holder has a handle, it is the one it was given. -/
structure Bound (table : HandleTable Handle) (x : Held Handle) : Prop where
  given : x.holder < table.given
  only : ∀ handle, table.owner handle = some x.holder → handle = x.handle

/-- The holder has closed what it was given. -/
structure Gone (table : HandleTable Handle) (holder : Nat) : Prop where
  given : holder < table.given
  without : ∀ handle, table.owner handle ≠ some holder

/-- Everyone in the list has the handle it was given, and no one is in it twice. -/
structure Backs (table : HandleTable Handle) (holders : List (Held Handle)) : Prop where
  owns : ∀ x ∈ holders, table.owner x.handle = some x.holder
  distinct : (holders.map Held.holder).Nodup

/-- From one table to a later one, the holders there are get no handle. -/
structure Later (table later : HandleTable Handle) : Prop where
  given : table.given ≤ later.given
  kept : ∀ handle holder, holder < table.given → later.owner handle = some holder →
    table.owner handle = some holder

section Later

variable {table next : HandleTable Handle} {x : Held Handle} {holder : Nat}

theorem Later.refl (table : HandleTable Handle) : table.Later table :=
  ⟨le_refl _, fun _ _ _ owned => owned⟩

theorem Bound.later (bound : table.Bound x) (step : table.Later next) : next.Bound x :=
  ⟨bound.given.trans_le step.given, fun handle owned =>
    bound.only handle (step.kept handle x.holder bound.given owned)⟩

theorem Gone.later (gone : table.Gone holder) (step : table.Later next) : next.Gone holder :=
  ⟨gone.given.trans_le step.given, fun handle owned =>
    gone.without handle (step.kept handle holder gone.given owned)⟩

end Later

namespace Backs

variable {table : HandleTable Handle} {holders fewer : List (Held Handle)}

theorem nil : table.Backs [] := ⟨by simp, List.nodup_nil⟩

theorem perm (backs : table.Backs holders) (same : holders.Perm fewer) : table.Backs fewer :=
  ⟨fun x member => backs.owns x (same.mem_iff.mpr member),
    (same.map Held.holder).nodup_iff.mp backs.distinct⟩

theorem sublist (backs : table.Backs holders) (sub : fewer.Sublist holders) : table.Backs fewer :=
  ⟨fun x member => backs.owns x (sub.subset member),
    backs.distinct.sublist (sub.map Held.holder)⟩

end Backs

theorem known_empty : (empty : HandleTable Handle).Known := by
  intro handle holder owned
  cases owned

variable [DecidableEq Handle] {table : HandleTable Handle} {handle : Handle}

/-- The next holder is given a handle. -/
def give (table : HandleTable Handle) (handle : Handle) : HandleTable Handle where
  owner := Function.update table.owner handle (some table.given)
  given := table.given + 1

def close (table : HandleTable Handle) (handle : Handle) : HandleTable Handle where
  owner := Function.update table.owner handle none
  given := table.given

theorem give_later (table : HandleTable Handle) (handle : Handle) :
    table.Later (table.give handle) := by
  refine ⟨Nat.le_succ _, ?_⟩
  intro other holder before owned
  by_cases same : other = handle
  · subst same
    simp only [give, Function.update_self, Option.some.injEq] at owned
    omega
  · simpa [give, same] using owned

theorem close_later (table : HandleTable Handle) (handle : Handle) :
    table.Later (table.close handle) := by
  refine ⟨le_refl _, ?_⟩
  intro other holder _ owned
  by_cases same : other = handle
  · subst same
    simp [close] at owned
  · simpa [close, same] using owned

theorem Known.give (known : table.Known) : (table.give handle).Known := by
  intro other holder owned
  by_cases same : other = handle
  · subst same
    simp only [HandleTable.give, Function.update_self, Option.some.injEq] at owned
    exact owned ▸ Nat.lt_succ_self _
  · have before : table.owner other = some holder := by
      simpa [HandleTable.give, same] using owned
    exact (known other holder before).trans (Nat.lt_succ_self _)

theorem Known.close (known : table.Known) : (table.close handle).Known := by
  intro other holder owned
  by_cases same : other = handle
  · subst same
    simp [HandleTable.close] at owned
  · exact known other holder (by simpa [HandleTable.close, same] using owned)

theorem Known.give_bound (known : table.Known) :
    (table.give handle).Bound ⟨table.given, handle⟩ := by
  refine ⟨Nat.lt_succ_self _, ?_⟩
  intro other owned
  by_contra different
  have before : table.owner other = some table.given := by
    simpa [HandleTable.give, different] using owned
  exact absurd (known other _ before) (lt_irrefl _)

theorem Bound.close_gone {x : Held Handle} (bound : table.Bound x) :
    (table.close x.handle).Gone x.holder := by
  refine ⟨bound.given, ?_⟩
  intro other owned
  by_cases same : other = x.handle
  · subst same
    simp [close] at owned
  · exact same (bound.only other (by simpa [close, same] using owned))

theorem Backs.give {holders : List (Held Handle)} (backs : table.Backs holders)
    (known : table.Known) (free : table.owner handle = none) :
    (table.give handle).Backs (⟨table.given, handle⟩ :: holders) := by
  constructor
  · intro x member
    rcases List.mem_cons.mp member with rfl | before
    · simp [HandleTable.give]
    · have different : x.handle ≠ handle := by
        intro same
        have owned := backs.owns x before
        rw [same, free] at owned
        cases owned
      simpa [HandleTable.give, different] using backs.owns x before
  · rw [List.map_cons, List.nodup_cons]
    refine ⟨?_, backs.distinct⟩
    intro member
    obtain ⟨x, before, same⟩ := List.mem_map.mp member
    exact absurd (known _ _ (backs.owns x before)) (by rw [same]; exact lt_irrefl _)

theorem Backs.close {x : Held Handle} {holders : List (Held Handle)}
    (backs : table.Backs (x :: holders)) : (table.close x.handle).Backs holders := by
  have distinct := List.nodup_cons.mp backs.distinct
  refine ⟨?_, distinct.2⟩
  intro y member
  have owned := backs.owns y (List.mem_cons_of_mem x member)
  have different : y.handle ≠ x.handle := by
    intro same
    have mine := backs.owns x List.mem_cons_self
    rw [same, mine] at owned
    exact distinct.1 (List.mem_map.mpr ⟨y, member, (Option.some.inj owned).symm⟩)
  simpa [HandleTable.close, different] using owned

end HandleTable

end EmailServer
