import EmailServer.Auth.AuthManager

/-! # When a verification throws

`isHashed` looks at the length and the beginning of a text only. `verify` reads the
iteration count between two dollar signs with `std::stoi`, which throws on what is not a
number, where every other part that is malformed makes it return false.
-/

namespace EmailServer.Auth

open EmailServer.Bytes

namespace PasswordHash

def decimalValue (digits : Bytes) : Int := digits.foldl (fun n c => 10 * n + (c.toNat - 48)) 0

/-- What `std::stoi` reads: white space, a sign, and digits whose value is an `int`. What
    is behind the digits is not read. -/
def Number (text : Bytes) : Prop :=
  ∃ blanks sign digits rest, text = blanks ++ (sign ++ (digits ++ rest)) ∧
    (∀ c ∈ blanks, isSpace c = true) ∧ (sign = [] ∨ sign = [43] ∨ sign = [45]) ∧
    digits ≠ [] ∧ (∀ c ∈ digits, isDigit c = true) ∧ rest.head?.any isDigit = false ∧
    if sign = [45] then decimalValue digits ≤ 2 ^ 31 else decimalValue digits < 2 ^ 31

theorem digit_plain {c : UInt8} (digit : isDigit c = true) : isSpace c = false ∧ c ≠ 43 ∧ c ≠ 45 := by
  simp only [isDigit, Bool.and_eq_true, decide_eq_true_eq, UInt8.le_iff_toNat_le] at digit
  obtain ⟨low, high⟩ := digit
  change 48 ≤ c.toNat at low
  refine ⟨?_, ?_, ?_⟩
  · have other : c ≠ 32 := by
      rintro rfl
      exact absurd low (by decide)
    have above : ¬ c ≤ 13 := by
      rw [UInt8.le_iff_toNat_le]
      change ¬ c.toNat ≤ 13
      omega
    simp [isSpace, other, above]
  · rintro rfl
    exact absurd low (by decide)
  · rintro rfl
    exact absurd low (by decide)

theorem decimalValue_nonneg {digits : Bytes} (digit : ∀ c ∈ digits, isDigit c = true) :
    0 ≤ decimalValue digits := by
  have from_ : ∀ (digits : Bytes) (n : Int), 0 ≤ n → (∀ c ∈ digits, isDigit c = true) →
      0 ≤ digits.foldl (fun n c => 10 * n + ((c.toNat : Int) - 48)) n := by
    intro digits
    induction digits with
    | nil => exact fun n nonneg _ => nonneg
    | cons c digits ih =>
        intro n nonneg digit
        obtain ⟨here, later⟩ := List.forall_mem_cons.mp digit
        refine ih _ ?_ later
        simp only [isDigit, Bool.and_eq_true, decide_eq_true_eq, UInt8.le_iff_toNat_le] at here
        have low : 48 ≤ c.toNat := here.1
        change 0 ≤ 10 * n + ((c.toNat : Int) - 48)
        omega
  exact from_ digits 0 (le_refl 0) digit

section Stoi

variable {blanks sign digits rest text : Bytes}

/-- The parts of a text as `std::stoi` takes them. -/
structure Scanned (blanks sign digits rest : Bytes) : Prop where
  blank : ∀ c ∈ blanks, isSpace c = true
  signed : sign = [] ∨ sign = [43] ∨ sign = [45]
  start : (sign ++ (digits ++ rest)).head?.any isSpace = false
  unsigned : sign = [] → (digits ++ rest).head? ≠ some 43 ∧ (digits ++ rest).head? ≠ some 45
  digit : ∀ c ∈ digits, isDigit c = true
  stop : rest.head?.any isDigit = false

theorem stop_dropWhile {p : UInt8 → Bool} (stop : text.head?.any p = false) :
    text.dropWhile p = text := by
  cases text with
  | nil => rfl
  | cons c text => exact List.dropWhile_cons_of_neg (by simpa using stop)

theorem stop_takeWhile {p : UInt8 → Bool} (stop : text.head?.any p = false) :
    text.takeWhile p = [] := by
  cases text with
  | nil => rfl
  | cons c text => exact List.takeWhile_cons_of_neg (by simpa using stop)

theorem head_dropWhile (p : UInt8 → Bool) (text : Bytes) : (text.dropWhile p).head?.any p = false := by
  induction text with
  | nil => rfl
  | cons c text ih =>
      cases holds : p c with
      | true => rwa [List.dropWhile_cons_of_pos holds]
      | false => simp [holds]

theorem scan (text : Bytes) : ∃ blanks sign digits rest,
    text = blanks ++ (sign ++ (digits ++ rest)) ∧ Scanned blanks sign digits rest := by
  have start := head_dropWhile isSpace text
  have whole := @List.takeWhile_append_dropWhile _ isSpace text
  generalize text.dropWhile isSpace = signedText at start whole
  obtain ⟨sign, number, parts, signed, unsigned⟩ : ∃ sign number : Bytes, signedText = sign ++ number ∧
      (sign = [] ∨ sign = [43] ∨ sign = [45]) ∧
      (sign = [] → number.head? ≠ some 43 ∧ number.head? ≠ some 45) := by
    by_cases plus : signedText.head? = some 43
    · obtain ⟨number, rfl⟩ := List.head?_eq_some_iff.mp plus
      exact ⟨[43], number, rfl, .inr (.inl rfl), fun empty => absurd empty (by simp)⟩
    · by_cases minus : signedText.head? = some 45
      · obtain ⟨number, rfl⟩ := List.head?_eq_some_iff.mp minus
        exact ⟨[45], number, rfl, .inr (.inr rfl), fun empty => absurd empty (by simp)⟩
      · exact ⟨[], signedText, rfl, .inl rfl, fun _ => ⟨plus, minus⟩⟩
  have digits := @List.takeWhile_append_dropWhile _ isDigit number
  refine ⟨text.takeWhile isSpace, sign, number.takeWhile isDigit, number.dropWhile isDigit, ?_, ?_⟩
  · rw [digits, ← parts, whole]
  · constructor
    · exact fun c member => List.mem_takeWhile_imp member
    · exact signed
    · rwa [digits, ← parts]
    · rwa [digits]
    · exact fun c member => List.mem_takeWhile_imp member
    · exact head_dropWhile isDigit number

theorem stoi_parts (scanned : Scanned blanks sign digits rest) :
    stoi (blanks ++ (sign ++ (digits ++ rest))) =
      if digits = [] then none
      else
        let n := if sign = [45] then -decimalValue digits else decimalValue digits
        if n < -2 ^ 31 ∨ 2 ^ 31 ≤ n then none else some n := by
  have taken : (digits ++ rest).takeWhile isDigit = digits := by
    rw [List.takeWhile_append_of_pos scanned.digit, stop_takeWhile scanned.stop, List.append_nil]
  rw [stoi, List.dropWhile_append_of_pos scanned.blank, stop_dropWhile scanned.start]
  rcases scanned.signed with rfl | rfl | rfl
  · obtain ⟨notPlus, notMinus⟩ := scanned.unsigned rfl
    rw [← beq_eq_false_iff_ne] at notPlus notMinus
    simp only [List.nil_append, notPlus, notMinus, taken, Bool.or_self, Bool.false_eq_true, if_false]
    rfl
  · have minus : ((some 43 : Option UInt8) == some 45) = false := by decide
    have plus : ((some 43 : Option UInt8) == some 43) = true := by decide
    have other : ([43] : Bytes) ≠ [45] := by decide
    simp only [List.cons_append, List.nil_append, List.head?_cons, List.drop_one, List.tail_cons,
      minus, plus, Bool.or_true, Bool.false_eq_true, if_true, if_false, taken, if_neg other]
    rfl
  · have minus : ((some 45 : Option UInt8) == some 45) = true := by decide
    simp only [List.cons_append, List.nil_append, List.head?_cons, List.drop_one, List.tail_cons,
      minus, Bool.true_or, if_true, taken]
    rfl

theorem stoi_isSome_iff : (stoi text).isSome ↔ Number text := by
  constructor
  · intro returns
    obtain ⟨blanks, sign, digits, rest, rfl, scanned⟩ := scan text
    have nonneg := decimalValue_nonneg scanned.digit
    rw [stoi_parts scanned] at returns
    split at returns
    · cases returns
    · rename_i nonempty
      refine ⟨blanks, sign, digits, rest, rfl, scanned.blank, scanned.signed, nonempty,
        scanned.digit, scanned.stop, ?_⟩
      dsimp only at returns
      by_cases negative : sign = [45]
      · rw [if_pos negative] at returns ⊢
        by_contra large
        rw [if_pos (by omega)] at returns
        cases returns
      · rw [if_neg negative] at returns ⊢
        by_contra large
        rw [if_pos (by omega)] at returns
        cases returns
  · intro ⟨blanks, sign, digits, rest, same, blank, signed, nonempty, digit, stop, fits⟩
    have nonneg := decimalValue_nonneg digit
    obtain ⟨d, more, rfl⟩ := List.exists_cons_of_ne_nil nonempty
    obtain ⟨notSpace, notPlus, notMinus⟩ := digit_plain (digit d List.mem_cons_self)
    have scanned : Scanned blanks sign (d :: more) rest := by
      refine ⟨blank, signed, ?_, fun _ => ⟨by simpa using notPlus, by simpa using notMinus⟩, digit,
        stop⟩
      rcases signed with rfl | rfl | rfl
      · exact notSpace
      · rfl
      · rfl
    rw [same, stoi_parts scanned, if_neg nonempty]
    dsimp only
    split at fits
    · rename_i negative
      rw [if_pos negative, if_neg (by omega)]
      rfl
    · rename_i positive
      rw [if_neg positive, if_neg (by omega)]
      rfl

end Stoi

/-- The iteration count is there and is not a number. -/
def Miscounted (str : Bytes) : Prop :=
  ∃ count rest, str = header ++ (count ++ dollar :: rest) ∧ dollar ∉ count ∧ ¬ Number count

/-- A verification returns true or false if and only if the password is empty or the
    iteration count is a number, if there is one. -/
theorem verify_returns_iff (ssl : OpenSsl) (plaintext str : Bytes) :
    (verify ssl plaintext str).isSome ↔ plaintext = [] ∨ ¬ Miscounted str := by
  have counted : ∀ {count rest}, cut dollar (str.drop 15) = some (count, rest) →
      str.take 15 = header → (Miscounted str ↔ ¬ Number count) := by
    intro count rest parts begins
    have whole : str = header ++ (count ++ dollar :: rest) := by
      rw [← cut_eq parts, ← begins, List.take_append_drop]
    constructor
    · intro ⟨count', rest', same, clean, miscounted⟩
      rw [same, ← header_length, List.drop_left, cut_append clean] at parts
      obtain ⟨rfl, rfl⟩ := Prod.mk.inj (Option.some.inj parts)
      exact miscounted
    · exact fun miscounted => ⟨count, rest, whole, cut_clean parts, miscounted⟩
  have uncounted : (str.take 15 ≠ header ∨ cut dollar (str.drop 15) = none) → ¬ Miscounted str := by
    rintro other ⟨count, rest, rfl, clean, -⟩
    rw [← header_length, List.take_left, List.drop_left, cut_append clean] at other
    simp at other
  unfold verify
  by_cases empty : plaintext = []
  · simp [empty]
  by_cases unset : str = []
  · have other : ¬ Miscounted str := uncounted (.inl (by rw [unset]; decide))
    rw [if_pos (.inr unset)]
    exact ⟨fun _ => .inr other, fun _ => rfl⟩
  rw [if_neg (by simp [empty, unset])]
  by_cases begins : str.take 15 = header
  · rw [if_pos begins]
    cases parts : cut dollar (str.drop 15) with
    | none => simp [uncounted (.inr parts)]
    | some part =>
        obtain ⟨count, rest⟩ := part
        have number := @stoi_isSome_iff count
        dsimp only
        rw [counted parts begins, not_not, or_iff_right empty, ← number]
        cases stoi count with
        | none => rfl
        | some iterations =>
            dsimp only
            split
            · rfl
            · split
              · rfl
              · split <;> rfl
  · rw [if_neg begins]
    have other := uncounted (.inl begins)
    split <;> simp [other]

/-- A text that passes for a hash and has letters for its iteration count. -/
theorem verify_throws :
    isHashed (ascii "$pbkdf2-sha256$many$c2FsdA==$aGFzaA==") = true ∧ ∀ ssl,
      verify ssl (ascii "secret") (ascii "$pbkdf2-sha256$many$c2FsdA==$aGFzaA==") = none :=
  ⟨by decide +kernel, fun _ => rfl⟩

end PasswordHash

end EmailServer.Auth
