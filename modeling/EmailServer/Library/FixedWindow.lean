import Mathlib.Algebra.Order.Ring.Int
import Mathlib.Tactic.Ring
import EmailServer.Library.Trace

/-! # Counters of fixed windows

A counter admits a hit if it is among the first `limit` of its window. A window
begins with the first hit that comes more than a period after the last one began.
A hit may be given back. What is given back of a count within the limit makes
room for another hit in the same window.
-/

namespace EmailServer

structure Counter where
  count : Nat := 0
  window : Int := 0
  deriving DecidableEq

namespace Counter

/-- Count a hit. -/
def hit (period now : Int) (c : Counter) : Counter :=
  let c := if now - c.window > period then { c with window := now, count := 0 } else c
  { c with count := c.count + 1 }

def giveBack (c : Counter) : Counter :=
  if c.count > 0 then { c with count := c.count - 1 } else c

end Counter

inductive CounterUse where
  | hit
  | giveBack
  deriving DecidableEq

/-- A use of the counter at a time. -/
structure TimedUse where
  now : Int
  use : CounterUse

/-- What a use makes of the counter. -/
def Counter.after (period : Int) (c : Counter) (l : TimedUse) : Counter :=
  match l.use with
  | .hit => c.hit period l.now
  | .giveBack => c.giveBack

def Counter.Step (period : Int) (c : Counter) (l : TimedUse) (d : Counter) : Prop :=
  d = c.after period l

/-- A use with the counters around it. -/
abbrev Used := Taken TimedUse Counter

namespace Used

/-- A hit that is admitted. -/
def admitted (limit : Nat) (x : Used) : Bool :=
  x.label.use == .hit && decide (x.after.count ≤ limit)

/-- A hit given back of a count within the limit. -/
def freed (limit : Nat) (x : Used) : Bool :=
  x.label.use == .giveBack && decide (0 < x.before.count ∧ x.before.count ≤ limit)

/-- A hit that is counted in the window that begins at `window`. -/
def countedIn (window : Int) (x : Used) : Bool :=
  x.label.use == .hit && x.after.window == window

/-- The use falls into the period that begins with `start`. -/
def within (period start : Int) (x : Used) : Bool :=
  decide (start ≤ x.label.now ∧ x.label.now ≤ start + period)

end Used

/-- How often `f` is found in the period that begins with `start`. -/
def countWithin (period start : Int) (f : Used → Bool) (past : List Used) : Nat :=
  past.countP fun x => x.within period start && f x

section Periods

variable {period start : Int} {limit n : Nat} {past : List Used} {c : Counter} {x : Used}

theorem countWithin_concat (f : Used → Bool) : countWithin period start f (past ++ [x]) =
    countWithin period start f past + if x.within period start && f x then 1 else 0 := by
  simp only [countWithin, List.countP_append, List.countP_singleton]

theorem countWithin_outside (f : Used → Bool) (outside : x.within period start = false) :
    countWithin period start f (past ++ [x]) = countWithin period start f past := by
  simp [countWithin_concat, outside]

/-- How many windows can have begun since `start` when the last one begins at `window`, as far
    as `n + 1` periods have room for them. -/
def windowsBegun (period start : Int) (n : Nat) (window : Int) : Nat :=
  if window < start then 0 else min n ((window - start - 1) / period).toNat + 1

/-- How many admissions `n + 1` periods can have had so far: those of the window they began
    in, or those and the ones of the windows that have begun since. -/
def Counter.capacity (period start : Int) (n limit : Nat) (c : Counter) : Nat :=
  windowsBegun period start n c.window * limit + min c.count limit

theorem windowsBegun_le {window : Int} : windowsBegun period start n window ≤ n + 1 := by
  unfold windowsBegun
  split <;> omega

theorem capacity_le : c.capacity period start n limit ≤ (n + 2) * limit :=
  calc c.capacity period start n limit
      ≤ (n + 1) * limit + limit :=
        Nat.add_le_add (Nat.mul_le_mul_right _ windowsBegun_le) (Nat.min_le_right _ _)
    _ = (n + 2) * limit := by ring

theorem windowsBegun_next {window now : Int} (positive : 0 < period) (begun : start ≤ now)
    (lasts : now ≤ start + (n + 1) * period) (expired : now - window > period) :
    windowsBegun period start n window + 1 ≤ windowsBegun period start n now := by
  have new : ¬ now < start := by omega
  simp only [windowsBegun, new, if_false]
  split
  · omega
  -- a period lies between the two beginnings
  have later : (window - start - 1) / period + 1 ≤ (now - start - 1) / period := by
    rw [← Int.add_mul_ediv_right _ 1 positive.ne', one_mul]
    exact Int.ediv_le_ediv positive (by omega)
  have first : 1 ≤ (now - start - 1) / period := by
    rw [Int.le_ediv_iff_mul_le positive]
    omega
  have last : (now - start - 1) / period < n + 1 :=
    Int.ediv_lt_of_lt_mul positive (by omega)
  omega

/-- A use in the `n + 1` periods: an admission uses capacity up, unless a hit was given back. -/
theorem step_capacity (taken : Counter.Step period x.before x.label x.after) (positive : 0 < period)
    (begun : start ≤ x.label.now) (lasts : x.label.now ≤ start + (n + 1) * period) :
    x.before.capacity period start n limit + (if x.admitted limit then 1 else 0) ≤
      x.after.capacity period start n limit + (if x.freed limit then 1 else 0) := by
  obtain ⟨⟨now, use⟩, c, d⟩ := x
  obtain rfl : d = c.after period ⟨now, use⟩ := taken
  dsimp only at begun lasts
  cases use with
  | hit =>
      simp only [Used.admitted, Used.freed, Counter.after, Counter.hit, Counter.capacity]
      by_cases expired : now - c.window > period
      · have more := Nat.mul_le_mul_right limit (windowsBegun_next positive begun lasts expired)
        rw [Nat.succ_mul] at more
        simp only [expired, if_true]
        simp
        split <;> omega
      · simp only [expired, if_false]
        simp
        split <;> omega
  | giveBack =>
      simp only [Used.admitted, Used.freed, Counter.after, Counter.giveBack, Counter.capacity]
      by_cases counted : c.count > 0
      · simp only [counted, if_true]
        simp
        split <;> omega
      · simp [counted]

/-- In a period at most twice the limit is admitted, and one hit more for each that was
    given back in it. -/
theorem admitted_le {initial : Counter} (positive : 0 < period)
    (trace : Trace (Counter.Step period) initial past c)
    (ordered : past.Pairwise fun x y => x.label.now ≤ y.label.now) :
    countWithin period start (Used.admitted limit) past ≤
      2 * limit + countWithin period start (Used.freed limit) past := by
  suffices known : countWithin period start (Used.admitted limit) past ≤
        2 * limit + countWithin period start (Used.freed limit) past ∧
      ((∀ x ∈ past, x.label.now ≤ start + period) →
        countWithin period start (Used.admitted limit) past ≤
          c.capacity period start 0 limit + countWithin period start (Used.freed limit) past) from known.1
  induction trace with
  | nil => simp [countWithin]
  | @snoc past c l d _ taken ih =>
      obtain ⟨earlier, -, last⟩ := List.pairwise_append.mp ordered
      obtain ⟨bound, current⟩ := ih earlier
      have last : ∀ x ∈ past, x.label.now ≤ l.now := fun x member => last x member _ (.head _)
      cases within : Used.within period start ⟨l, c, d⟩ with
      | true =>
          obtain ⟨begun, lasts⟩ : start ≤ l.now ∧ l.now ≤ start + period := by
            simpa [Used.within] using within
          have before := current fun x member => (last x member).trans lasts
          have step := @step_capacity period start limit 0 ⟨l, c, d⟩ taken positive begun (by simpa)
          have whole := @capacity_le period start limit 0 d
          rw [countWithin_concat, countWithin_concat, within, Bool.true_and, Bool.true_and]
          dsimp only at step
          constructor
          · omega
          · intro _
            omega
      | false =>
          rw [countWithin_outside _ within, countWithin_outside _ within]
          refine ⟨bound, fun all => ?_⟩
          -- the period has not begun
          have early : l.now < start := by
            have := all ⟨l, c, d⟩ (by simp)
            simp only [Used.within, decide_eq_false_iff_not, not_and] at within
            dsimp only at this
            omega
          have nothing : countWithin period start (Used.admitted limit) past = 0 := by
            rw [countWithin, List.countP_eq_zero]
            intro x member
            have := last x member
            simp only [Used.within, Bool.and_eq_true, decide_eq_true_eq]
            omega
          omega

/-- A window that hits were counted in is the counter's, with all of them, or it was
    over when the counter's began. -/
theorem hits_counted {initial : Counter} (trace : Trace (Counter.Step period) initial past c)
    (hits : ∀ x ∈ past, x.label.use = .hit) (lasts : 0 ≤ period) {window : Int}
    (counted : 0 < past.countP (Used.countedIn window)) :
    window = c.window ∧ past.countP (Used.countedIn window) ≤ c.count ∨
      window + period < c.window ∧ ∃ x ∈ past, c.window = x.label.now := by
  induction trace with
  | nil => simp at counted
  | @snoc past c l d _ taken ih =>
      obtain ⟨now, use⟩ := l
      obtain rfl : use = .hit := hits ⟨⟨now, use⟩, c, d⟩ (by simp)
      obtain rfl : d = c.hit period now := taken
      have before := ih fun x member => hits x (by simp [member])
      have here : Used.countedIn window ⟨⟨now, .hit⟩, c, c.hit period now⟩ =
          decide ((c.hit period now).window = window) := by
        simp [Used.countedIn, beq_eq_decide]
      rw [List.countP_append, List.countP_singleton, here] at counted ⊢
      simp only [decide_eq_true_eq] at counted ⊢
      by_cases expired : now - c.window > period
      · have begun : (c.hit period now).window = now := by simp [Counter.hit, expired]
        rw [begun] at counted ⊢
        by_cases this : now = window
        · left
          -- nothing was counted in the window before it began
          have nothing : past.countP (Used.countedIn window) = 0 := by
            by_contra some_
            rcases before (Nat.pos_of_ne_zero some_) with old | old <;> omega
          simp [this, nothing, Counter.hit]
        · simp only [this, if_false, add_zero] at counted ⊢
          right
          refine ⟨?_, _, List.mem_append_right _ (.head _), rfl⟩
          rcases before counted with old | old <;> omega
      · have begun : (c.hit period now).window = c.window := by simp [Counter.hit, expired]
        have more : (c.hit period now).count = c.count + 1 := by simp [Counter.hit, expired]
        rw [begun] at counted
        rw [begun, more]
        by_cases this : c.window = window
        · left
          rw [if_pos this]
          refine ⟨this.symm, ?_⟩
          by_cases some_ : 0 < past.countP (Used.countedIn window)
          · rcases before some_ with old | old <;> omega
          · omega
        · simp only [this, if_false, add_zero] at counted ⊢
          rcases before counted with ⟨same, -⟩ | ⟨old, x, member, began⟩
          · exact absurd same.symm this
          · exact .inr ⟨old, x, List.mem_append_left _ member, began⟩

end Periods

end EmailServer
