import Mathlib.Data.Nat.Digits.Defs
import EmailServer.Mime.EncodedText

/-! # The accumulator of the base64 decoder

Nothing is ever taken off the accumulator: it is the number that the letters write in base 64.
The sixth letter can be one too many for an `int`.
-/

namespace EmailServer.Mime

/-- The loop with the values that `val` and the results of its operations take. -/
def base64Traced (val valb : Int) : Bytes → List Int × Bytes
  | [] => ([], [])
  | c :: rest =>
      match Base64.value c with
      | none => base64Traced val valb rest
      | some number =>
          let shifted : Int := val * 2 ^ 6
          let sum : Int := shifted + number
          let next := Int.bmod sum (2 ^ 32)
          let valb := valb + 6
          if 0 ≤ valb then
            let (values, out) := base64Traced next (valb - 8) rest
            (val :: shifted :: sum :: values, (next >>> valb.toNat % 256).toNat.toUInt8 :: out)
          else
            let (values, out) := base64Traced next valb rest
            (val :: shifted :: sum :: values, out)

/-- It is a value of a 32-bit `int`. -/
def FitsInt (v : Int) : Prop := -2 ^ 31 ≤ v ∧ v < 2 ^ 31

instance : DecidablePred FitsInt := fun _ => inferInstanceAs (Decidable (_ ∧ _))

/-- Every value on the way is one of an `int`. -/
def NoOverflow (text : Bytes) : Prop := ∀ v ∈ (base64Traced 0 (-8) text).1, FitsInt v

/-- The letters of the alphabet, as digits. -/
def base64Digits (text : Bytes) : List Nat := text.filterMap Base64.value

/-- From the first digit that counts. -/
def leadingDigits (text : Bytes) : List Nat := (base64Digits text).dropWhile (· == 0)

section Accumulator

variable {val valb : Int} {text : Bytes} {digits read : List Nat}

theorem base64Traced_snd : (base64Traced val valb text).2 = base64Signed val valb text := by
  induction text generalizing val valb with
  | nil => rfl
  | cons c text ih =>
      rw [base64Traced, base64Signed]
      cases Base64.value c with
      | none => exact ih
      | some number =>
          dsimp only
          split
          · rw [ih]
          · exact ih

theorem fitsInt_digit {n d : Nat} :
    (∀ v ∈ [(n : Int), n * 2 ^ 6, n * 2 ^ 6 + d], FitsInt v) ↔ d + 64 * n < 2 ^ 31 := by
  simp only [List.mem_cons, List.not_mem_nil, or_false, forall_eq_or_imp, forall_eq, FitsInt]
  omega

theorem ofDigits_le_append (later : List Nat) :
    Nat.ofDigits 64 read ≤ Nat.ofDigits 64 (later ++ read) := by
  rw [Nat.ofDigits_append]
  have scaled : 1 * Nat.ofDigits 64 read ≤ 64 ^ later.length * Nat.ofDigits 64 read :=
    Nat.mul_le_mul_right _ (Nat.one_le_pow _ _ (by decide))
  omega

/-- `read` are the digits read so far, the last one first: the accumulator is their number, and
    all values fit if and only if the number of all the digits does. -/
theorem base64Traced_fits (small : Nat.ofDigits 64 read < 2 ^ 31) :
    (∀ v ∈ (base64Traced (Nat.ofDigits 64 read : Nat) valb text).1, FitsInt v) ↔
      Nat.ofDigits 64 ((base64Digits text).reverse ++ read) < 2 ^ 31 := by
  induction text generalizing read valb with
  | nil => simpa [base64Traced, base64Digits] using small
  | cons c text ih =>
      rw [base64Traced, base64Digits]
      cases number : Base64.value c with
      | none =>
          rw [List.filterMap_cons_none number]
          exact ih small
      | some d =>
          rw [List.filterMap_cons_some number, List.reverse_cons, List.append_assoc,
            List.singleton_append]
          have next : Nat.ofDigits 64 (d :: read) = d + 64 * Nat.ofDigits 64 read :=
            Nat.ofDigits_cons
          by_cases fits : d + 64 * Nat.ofDigits 64 read < 2 ^ 31
          · have kept : Int.bmod ((Nat.ofDigits 64 read : Nat) * 2 ^ 6 + d) (2 ^ 32) =
                (Nat.ofDigits 64 (d :: read) : Nat) := by
              rw [next, Int.bmod_eq_of_le (by omega) (by omega)]
              push_cast
              omega
            have later := fun valb => @ih valb (d :: read) (by omega)
            dsimp only
            rw [kept]
            split
            · exact List.forall_mem_append.trans
                ((and_iff_right (fitsInt_digit.mpr fits)).trans (later _))
            · exact List.forall_mem_append.trans
                ((and_iff_right (fitsInt_digit.mpr fits)).trans (later _))
          · have large : ¬ Nat.ofDigits 64 ((base64Digits text).reverse ++ d :: read) < 2 ^ 31 := by
              have grows := @ofDigits_le_append (d :: read) (base64Digits text).reverse
              omega
            apply iff_of_false _ large
            intro all
            apply fits
            apply fitsInt_digit.mp
            intro v member
            apply all
            dsimp only
            split
            · exact List.mem_append_left _ member
            · exact List.mem_append_left _ member

theorem base64Digits_small : ∀ d ∈ base64Digits text, d < 64 := by
  intro d member
  obtain ⟨c, -, number⟩ := List.mem_filterMap.mp member
  unfold Base64.value at number
  simp only [UInt8.le_iff_toNat_le] at number
  have bounds : (90 : UInt8).toNat = 90 ∧ (122 : UInt8).toNat = 122 ∧ (57 : UInt8).toNat = 57 := by
    decide
  repeat' split at number
  all_goals
    cases number
    try omega

theorem ofDigits_dropWhile (digits : List Nat) :
    Nat.ofDigits 64 digits.reverse = Nat.ofDigits 64 (digits.dropWhile (· == 0)).reverse := by
  induction digits with
  | nil => rfl
  | cons d digits ih =>
      by_cases zero : d = 0
      · subst zero
        rw [Nat.ofDigits_reverse_zero_cons, ih, List.dropWhile_cons_of_pos (by rfl)]
      · rw [List.dropWhile_cons_of_neg (by simpa using zero)]

/-- A number without leading zeros is below `2 ^ 31` if it has five digits at most, or six with
    a one in front. -/
theorem ofDigits_lt_iff (small : ∀ d ∈ digits, d < 64) (leading : digits.head? ≠ some 0) :
    Nat.ofDigits 64 digits.reverse < 2 ^ 31 ↔
      digits.length ≤ 5 ∨ digits.length = 6 ∧ digits.head? = some 1 := by
  cases digits with
  | nil => simp
  | cons d digits =>
      obtain ⟨-, smaller⟩ := List.forall_mem_cons.mp small
      have positive : d ≠ 0 := by simpa using leading
      have below : Nat.ofDigits 64 digits.reverse < 64 ^ digits.length := by
        have bound := @Nat.ofDigits_lt_base_pow_length 64 digits.reverse (by decide)
          fun e member => smaller e (List.mem_reverse.mp member)
        rwa [List.length_reverse] at bound
      rw [Nat.ofDigits_reverse_cons]
      simp only [List.length_cons, List.head?_cons, Option.some.injEq]
      rcases Nat.lt_trichotomy digits.length 5 with few | five | many
      · have power : 64 ^ digits.length ≤ 64 ^ 4 := Nat.pow_le_pow_right (by decide) (by omega)
        have scaled : 64 ^ digits.length * d ≤ 64 ^ 4 * 63 :=
          Nat.mul_le_mul power (Nat.le_of_lt_succ (small d List.mem_cons_self))
        omega
      · rw [five] at below ⊢
        omega
      · have power : 64 ^ 6 ≤ 64 ^ digits.length := Nat.pow_le_pow_right (by decide) many
        have scaled : 64 ^ 6 * 1 ≤ 64 ^ digits.length * d :=
          Nat.mul_le_mul power (Nat.one_le_iff_ne_zero.mpr positive)
        omega

/-- No value leaves the range of an `int` if and only if, from the first letter that is not an
    `A`, there are five letters at most, or six with a `B` in front. -/
theorem noOverflow_iff (text : Bytes) : NoOverflow text ↔
    (leadingDigits text).length ≤ 5 ∨
      (leadingDigits text).length = 6 ∧ (leadingDigits text).head? = some 1 := by
  have fits := @base64Traced_fits (-8) text [] (by decide)
  have small : ∀ d ∈ leadingDigits text, d < 64 := fun d member =>
    base64Digits_small d ((List.dropWhile_suffix _).subset member)
  have leading : (leadingDigits text).head? ≠ some 0 := by
    intro zero
    have first := List.head?_dropWhile_not (· == 0) (base64Digits text)
    rw [show (base64Digits text).dropWhile (· == 0) = leadingDigits text from rfl, zero] at first
    simp at first
  rw [← ofDigits_lt_iff small leading, leadingDigits, ← ofDigits_dropWhile]
  simpa [NoOverflow] using fits

/-- Six letters with all their bits set. -/
theorem slashes_overflow : ¬ NoOverflow (ascii "//////") := by
  rw [NoOverflow]
  decide

end Accumulator

end EmailServer.Mime
