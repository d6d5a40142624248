import Mathlib.Algebra.Order.Ring.Nat
import Mathlib.Data.List.Basic
import Mathlib.Logic.Function.Basic

/-! # Cascades of moves

A store with slots for the last few values that it has held. Before a new one comes, every
value is moved up by one slot, the oldest one first, so that a move never falls on a value
that has still to be moved. What was in the last slot is lost.
-/

namespace EmailServer.Cascade

variable {P V : Type*} [DecidableEq P]

/-- Move what is at `src` to `dst`, if there is something. -/
def move (src dst : P) (store : P → Option V) : P → Option V :=
  match store src with
  | none => store
  | some v => Function.update (Function.update store src none) dst (some v)

/-- Every slot below `i` into the next one, from above. -/
def cascade (slot : Nat → P) : Nat → (P → Option V) → (P → Option V)
  | 0, store => store
  | i + 1, store => cascade slot i (move (slot i) (slot (i + 1)) store)

/-- The first `size` slots hold the end of the history, the newest value first. -/
def Holds (slot : Nat → P) (size : Nat) (history : List V) (store : P → Option V) : Prop :=
  ∀ k, store (slot k) = if k < size then history.reverse[k]? else none

/-- There is no gap below `i`. -/
def Packed (slot : Nat → P) (i : Nat) (store : P → Option V) : Prop :=
  ∀ k < i, store (slot k) = none → store (slot (k + 1)) = none

section Move

variable {src dst p : P} {store : P → Option V}

theorem move_dst (gap : store src = none → store dst = none) : move src dst store dst = store src := by
  unfold move
  cases full : store src with
  | none => exact gap full
  | some v => exact Function.update_self ..

theorem move_src (other : src ≠ dst) : move src dst store src = none := by
  unfold move
  cases full : store src with
  | none => exact full
  | some v =>
      dsimp only
      rw [Function.update_of_ne other, Function.update_self]

theorem move_other (notSrc : p ≠ src) (notDst : p ≠ dst) : move src dst store p = store p := by
  unfold move
  cases store src with
  | none => rfl
  | some v =>
      dsimp only
      rw [Function.update_of_ne notDst, Function.update_of_ne notSrc]

end Move

section Slots

variable {slot : Nat → P} {store : P → Option V} {history : List V} {i k size : Nat} {p : P}

theorem cascade_other (outside : ∀ k ≤ i, p ≠ slot k) : cascade slot i store p = store p := by
  induction i generalizing store with
  | zero => rfl
  | succ i ih =>
      rw [cascade, ih fun k below => outside k (by omega),
        move_other (outside i (by omega)) (outside (i + 1) (by omega))]

/-- Without gaps, every value goes up by one slot. -/
theorem cascade_slot (apart : Function.Injective slot) (packed : Packed slot i store) (below : k < i) :
    cascade slot i store (slot (k + 1)) = store (slot k) := by
  induction i generalizing store k with
  | zero => cases below
  | succ i ih =>
      have different : ∀ m n, m ≠ n → slot m ≠ slot n := fun m n other same => other (apart same)
      rw [cascade]
      rcases Nat.lt_succ_iff_lt_or_eq.mp below with lower | rfl
      · -- the slot above has been emptied, so there is no gap
        have packed' : Packed slot i (move (slot i) (slot (i + 1)) store) := by
          intro k lower empty
          rw [move_other (different _ _ (by omega)) (different _ _ (by omega))] at empty
          by_cases top : k + 1 = i
          · rw [top, move_src (different _ _ (by omega))]
          · rw [move_other (different _ _ top) (different _ _ (by omega))]
            exact packed k (by omega) empty
        rw [ih packed' lower, move_other (different _ _ (by omega)) (different _ _ (by omega))]
      · rw [cascade_other fun m lower => different _ _ (by omega),
          move_dst (packed k (Nat.lt_succ_self k))]

omit [DecidableEq P] in
theorem Holds.packed (holds : Holds slot size history store) (small : i < size) :
    Packed slot i store := by
  intro k below empty
  rw [holds k, if_pos (by omega), List.getElem?_eq_none_iff] at empty
  rw [holds (k + 1)]
  split
  · rw [List.getElem?_eq_none_iff]
    omega
  · rfl

/-- The cascade makes room for a new value, which then comes from outside. -/
theorem Holds.next {v : V} (holds : Holds slot (size + 1) history store)
    (apart : Function.Injective slot) (outside : ∀ k, p ≠ slot k) (value : store p = some v) :
    Holds slot (size + 1) (history ++ [v]) (move p (slot 0) (cascade slot size store)) := by
  have different : ∀ m n, m ≠ n → slot m ≠ slot n := fun m n other same => other (apart same)
  have kept : cascade slot size store p = some v := by
    rw [cascade_other fun k _ => outside k, value]
  intro k
  rw [List.reverse_concat]
  cases k with
  | zero =>
      rw [move_dst (fun empty => by rw [kept] at empty; cases empty), kept]
      rfl
  | succ k =>
      rw [move_other (Ne.symm (outside _)) (different _ _ (by omega)), List.getElem?_cons_succ]
      by_cases below : k < size
      · rw [cascade_slot apart (holds.packed (Nat.lt_succ_self size)) below, holds k,
          if_pos (by omega), if_pos (by omega)]
      · rw [cascade_other fun m upper => different _ _ (by omega), holds (k + 1), if_neg (by omega),
          if_neg (by omega)]

theorem next_other {q : P} (outside : ∀ k ≤ size, q ≠ slot k) (other : q ≠ p) :
    move p (slot 0) (cascade slot size store) q = store q := by
  rw [move_other other (outside 0 (Nat.zero_le _)), cascade_other outside]

end Slots

/-- The newest values, oldest first, are the end of the history. -/
theorem newest_eq_drop {α : Type*} (history : List (List α)) (size : Nat) :
    (List.range size).reverse.flatMap (fun k => (history.reverse[k]?).getD []) =
      (history.drop (history.length - size)).flatten := by
  induction size with
  | zero => simp
  | succ size ih =>
      rw [List.range_succ, List.reverse_concat, List.flatMap_cons, ih]
      by_cases inside : size < history.length
      · have first : history.length - (size + 1) + 1 = history.length - size := by omega
        have here : history.length - (size + 1) < history.length := by omega
        rw [List.getElem?_reverse inside, List.drop_eq_getElem_cons here, first, List.flatten_cons]
        have index : history.length - 1 - size = history.length - (size + 1) := by omega
        rw [index, List.getElem?_eq_getElem here, Option.getD_some]
      · have none_ : history.reverse[size]? = none := by
          rw [List.getElem?_eq_none_iff, List.length_reverse]
          omega
        have all : history.length - size = 0 := by omega
        have all' : history.length - (size + 1) = 0 := by omega
        rw [none_, all, all', Option.getD_none, List.nil_append]

end EmailServer.Cascade
