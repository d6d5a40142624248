import Mathlib.Algebra.Order.Ring.Int
import EmailServer.Mime.MimeDecoder

/-! # Encoded text

What the decoders make of text that has been encoded well. Base64 comes back, however the text
has been broken, and whatever older bits the accumulator carries along. Quoted-printable comes
back unless it has a soft line break, which is read as two digits.
-/

namespace EmailServer.Mime

/-! ## Base64 -/

/-- `text` is `encoded` with other ASCII characters put in anywhere, and padding left out. -/
inductive Scattered : Bytes → Bytes → Prop
  | nil : Scattered [] []
  | kept {c encoded text} : Scattered encoded text → Scattered (c :: encoded) (c :: text)
  | inserted {c encoded text} : c < 128 → Base64.value c = none → Scattered encoded text →
      Scattered encoded (c :: text)
  | unpadded {encoded text} : Scattered encoded text → Scattered (Base64.pad :: encoded) text

section Base64

variable {val : Nat} {valb : Int} {encoded text content : Bytes}

theorem base64_skip {c : UInt8} (foreign : Base64.value c = none) :
    MimeDecoder.base64 val valb (c :: text) = MimeDecoder.base64 val valb text := by
  rw [MimeDecoder.base64, foreign]

theorem base64_scattered (scattered : Scattered encoded text) :
    MimeDecoder.base64 val valb text = MimeDecoder.base64 val valb encoded := by
  induction scattered generalizing val valb with
  | nil => rfl
  | kept _ ih => simp only [MimeDecoder.base64, ih]
  | inserted _ foreign _ ih => rw [base64_skip foreign, ih]
  | unpadded _ ih => rw [base64_skip rfl, ih]

/-- The accumulator after a letter. -/
def accumulated (val n : Nat) : Nat := (val * 64 + n) % 2 ^ 32

theorem accumulated_mod {n : Nat} (small : n < 64) : accumulated val n % 64 = n := by
  unfold accumulated
  omega

theorem base64_first {n : Nat} (small : n < 64) :
    MimeDecoder.base64 val (-8) (Base64.letter n :: text) =
      MimeDecoder.base64 (accumulated val n) (-2) text := by
  rw [MimeDecoder.base64, Base64.value_letter small]
  rfl

theorem base64_letter {n : Nat} (small : n < 64) (k : Nat) :
    MimeDecoder.base64 val (k - 6) (Base64.letter n :: text) =
      (accumulated val n / 2 ^ k % 256).toUInt8 ::
        MimeDecoder.base64 (accumulated val n) (k - 8) text := by
  have shift : (k : Int) - 6 + 6 = k := by omega
  rw [MimeDecoder.base64, Base64.value_letter small]
  simp only [shift, Int.natCast_nonneg, if_true, Int.toNat_natCast, accumulated]

theorem base64_second {m n : Nat} (known : val % 64 = m) (small : n < 64) :
    MimeDecoder.base64 val (-2) (Base64.letter n :: text) =
      (m * 4 + n / 16).toUInt8 :: MimeDecoder.base64 (accumulated val n) (-4) text := by
  have byte : accumulated val n / 2 ^ 4 % 256 = m * 4 + n / 16 := by
    unfold accumulated
    omega
  rw [← byte]
  exact base64_letter small 4

theorem base64_third {m n : Nat} (known : val % 64 = m) (small : n < 64) :
    MimeDecoder.base64 val (-4) (Base64.letter n :: text) =
      (m % 16 * 16 + n / 4).toUInt8 :: MimeDecoder.base64 (accumulated val n) (-6) text := by
  have byte : accumulated val n / 2 ^ 2 % 256 = m % 16 * 16 + n / 4 := by
    unfold accumulated
    omega
  rw [← byte]
  exact base64_letter small 2

theorem base64_fourth {m n : Nat} (known : val % 64 = m) (small : n < 64) :
    MimeDecoder.base64 val (-6) (Base64.letter n :: text) =
      (m % 4 * 64 + n).toUInt8 :: MimeDecoder.base64 (accumulated val n) (-8) text := by
  have byte : accumulated val n / 2 ^ 0 % 256 = m % 4 * 64 + n := by
    unfold accumulated
    omega
  rw [← byte]
  exact base64_letter small 0

theorem base64_encode : MimeDecoder.base64 val (-8) (Base64.encode content) = content := by
  induction content using Base64.encode.induct generalizing val with
  | case1 a b c rest ih =>
      have boundA := a.toNat_lt
      have boundB := b.toNat_lt
      have boundC := c.toNat_lt
      rw [Base64.encode, base64_first (by omega), base64_second (accumulated_mod (by omega)) (by omega),
        base64_third (accumulated_mod (by omega)) (by omega),
        base64_fourth (accumulated_mod (by omega)) (by omega), ih,
        Base64.byte_eq (b := a) (by omega), Base64.byte_eq (b := b) (by omega),
        Base64.byte_eq (b := c) (by omega)]
  | case2 a b =>
      have boundA := a.toNat_lt
      have boundB := b.toNat_lt
      rw [Base64.encode, base64_first (by omega), base64_second (accumulated_mod (by omega)) (by omega),
        base64_third (accumulated_mod (by omega)) (by omega), base64_skip rfl, MimeDecoder.base64,
        Base64.byte_eq (b := a) (by omega), Base64.byte_eq (b := b) (by omega)]
  | case3 a =>
      have boundA := a.toNat_lt
      rw [Base64.encode, base64_first (by omega), base64_second (accumulated_mod (by omega)) (by omega),
        base64_skip rfl, base64_skip rfl, MimeDecoder.base64, Base64.byte_eq (b := a) (by omega)]
  | case4 => rfl

/-! The loop once more, with the numbers of the source: `val` is an `int` that wraps around, and
the shift is that of negative numbers too. -/

def base64Signed (val valb : Int) : Bytes → Bytes
  | [] => []
  | c :: rest =>
      match Base64.value c with
      | none => base64Signed val valb rest
      | some number =>
          let val := Int.bmod (val * 2 ^ 6 + number) (2 ^ 32)
          let valb := valb + 6
          if 0 ≤ valb then (val >>> valb.toNat % 256).toNat.toUInt8 :: base64Signed val (valb - 8) rest
          else base64Signed val valb rest

/-- A byte below the highest bits does not depend on what the number is modulo 2^32. -/
theorem shifted_byte {signed : Int} (bits : signed % 2 ^ 32 = (val : Int) % 2 ^ 32) {k : Nat}
    (below : k ≤ 24) : signed >>> k % 256 = ((val / 2 ^ k % 256 : Nat) : Int) := by
  obtain ⟨q, rfl⟩ : ∃ q : Int, signed = val + 2 ^ 32 * q :=
    ⟨signed / 2 ^ 32 - val / 2 ^ 32, by omega⟩
  have powers : (2 : Int) ^ 32 = 2 ^ k * (256 * 2 ^ (24 - k)) := by
    rw [show (256 : Int) = 2 ^ 8 from rfl, ← pow_add, ← pow_add]
    congr 1
    omega
  have positive : (2 : Int) ^ k ≠ 0 := pow_ne_zero k two_ne_zero
  rw [Int.shiftRight_eq_div_pow, powers, mul_assoc]
  push_cast
  rw [Int.add_mul_ediv_left _ _ positive, mul_assoc, Int.add_mul_emod_self_left]

/-- The 32 bits of the accumulator are all that is ever used of it. -/
theorem base64Signed_eq {signed : Int} (low : -8 ≤ valb) (high : valb < 0)
    (bits : signed % 2 ^ 32 = (val : Int) % 2 ^ 32) :
    base64Signed signed valb text = MimeDecoder.base64 val valb text := by
  induction text generalizing signed val valb with
  | nil => rfl
  | cons c text ih =>
      rw [base64Signed, MimeDecoder.base64]
      cases Base64.value c with
      | none => exact ih low high bits
      | some number =>
          have next : Int.bmod (signed * 2 ^ 6 + number) (2 ^ 32) % 2 ^ 32 =
              (((val * 64 + number) % 2 ^ 32 : Nat) : Int) % 2 ^ 32 := by
            rw [show (2 : Int) ^ 32 = ((2 ^ 32 : Nat) : Int) from rfl, Int.bmod_emod]
            push_cast
            omega
          dsimp only
          split
          case isTrue completes =>
            rw [ih (by omega) (by omega) next]
            congr 1
            rw [@shifted_byte ((val * 64 + number) % 2 ^ 32) _ next _ (by omega), Int.toNat_natCast]
          case isFalse short => exact ih (by omega) (by omega) next

/-- What is encoded in base64 comes back, with the accumulator as the source has it and as the model
has it. -/
theorem base64_decoded (scattered : Scattered (Base64.encode content) text) :
    MimeDecoder.decodeTransferEncoding text (ascii "base64") = content ∧
      base64Signed 0 (-8) text = content := by
  have decoded : MimeDecoder.base64 0 (-8) text = content := by
    rw [base64_scattered scattered, base64_encode]
  have signed : base64Signed 0 (-8) text = MimeDecoder.base64 0 (-8) text :=
    base64Signed_eq (by omega) (by omega) rfl
  have named : MimeDecoder.decodeTransferEncoding text (ascii "base64") =
      MimeDecoder.base64 0 (-8) text := rfl
  exact ⟨named.trans decoded, signed.trans decoded⟩

/-- `hi` is `aGk=`, and comes back without the padding and with a line break in it. -/
theorem base64_decoded_hi :
    MimeDecoder.decodeTransferEncoding (ascii "aG\r\nk") (ascii "base64") = ascii "hi" :=
  (@base64_decoded _ (ascii "hi") (.kept (.kept (.inserted (by decide) (by decide)
    (.inserted (by decide) (by decide) (.kept (.unpadded .nil))))))).1

end Base64

/-! ## Quoted-printable -/

instance : DecidablePred IsLiteral := fun c =>
  inferInstanceAs (Decidable ((33 ≤ c ∧ c ≤ 126 ∧ c ≠ Bytes.equals) ∨ c = Bytes.space ∨
    c = Bytes.tab ∨ c = Bytes.cr ∨ c = Bytes.lf))

/-- A soft line break. -/
def lineBreak : Bytes := [Bytes.equals, Bytes.cr, Bytes.lf]

section QuotedPrintable

variable {content text : Bytes}

theorem hexValue_plain {c : UInt8} {digit : Nat} (hex : hexValue c = some digit) :
    Bytes.isSpace c = false ∧ c ≠ 45 ∧ c ≠ 43 ∧ c ≠ Bytes.equals ∧ c ≠ Bytes.cr := by
  have all : ∀ n : Fin 256, (hexValue (UInt8.ofNat n)).isSome = true →
      Bytes.isSpace (UInt8.ofNat n) = false ∧ UInt8.ofNat n ≠ 45 ∧ UInt8.ofNat n ≠ 43 ∧
        UInt8.ofNat n ≠ Bytes.equals ∧ UInt8.ofNat n ≠ Bytes.cr := by
    decide +kernel
  simpa using all ⟨c.toNat, c.toNat_lt⟩ (by simp [hex])

theorem strtol_digits {high low : UInt8} {m n : Nat} (first : hexValue high = some m)
    (second : hexValue low = some n) : strtol [high, low] = m * 16 + n := by
  obtain ⟨solid, notMinus, notPlus, -, -⟩ := hexValue_plain first
  simp [strtol, List.dropWhile, solid, notMinus, notPlus, hexDigits, first, second]

theorem strtol_crlf : strtol [Bytes.cr, Bytes.lf] = 0 := by decide

theorem IsLiteral.ne_equals {c : UInt8} (literal : IsLiteral c) : c ≠ Bytes.equals := by
  rintro rfl
  exact absurd literal (by decide)

theorem quotedPrintable_literal {c : UInt8} (other : c ≠ Bytes.equals) :
    MimeDecoder.quotedPrintable (c :: text) = c :: MimeDecoder.quotedPrintable text := by
  cases text with
  | nil => rfl
  | cons next rest =>
      cases rest with
      | nil => rfl
      | cons => rw [MimeDecoder.quotedPrintable, if_neg other]

theorem quotedPrintable_escaped {c high low : UInt8} (first : hexValue high = some (c.toNat / 16))
    (second : hexValue low = some (c.toNat % 16)) :
    MimeDecoder.quotedPrintable (Bytes.equals :: high :: low :: text) =
      c :: MimeDecoder.quotedPrintable text := by
  have bound := c.toNat_lt
  have number : ((c.toNat / 16 : Nat) * 16 + (c.toNat % 16 : Nat) : Int) % 256 = c.toNat := by omega
  rw [MimeDecoder.quotedPrintable, if_pos rfl, strtol_digits first second, number, Int.toNat_natCast]
  congr 1
  exact UInt8.ofNat_toNat

theorem quotedPrintable_softBreak :
    MimeDecoder.quotedPrintable (Bytes.equals :: Bytes.cr :: Bytes.lf :: text) =
      0 :: MimeDecoder.quotedPrintable text := by
  rw [MimeDecoder.quotedPrintable, if_pos rfl, strtol_crlf]
  rfl

theorem infix_skip {c : UInt8} (other : c ≠ Bytes.equals) :
    lineBreak <:+: c :: text ↔ lineBreak <:+: text := by
  rw [List.infix_cons_iff, lineBreak, List.cons_prefix_cons]
  exact or_iff_right fun begins => other begins.1.symm

theorem QuotedPrintable.length_decoded (encodes : QuotedPrintable content text) :
    content.length ≤ (MimeDecoder.quotedPrintable text).length := by
  induction encodes with
  | nil => exact le_rfl
  | literal literal _ ih =>
      rw [quotedPrintable_literal literal.ne_equals]
      exact Nat.succ_le_succ ih
  | escaped first second _ ih =>
      rw [quotedPrintable_escaped first second]
      exact Nat.succ_le_succ ih
  | softBreak _ ih =>
      rw [quotedPrintable_softBreak]
      exact Nat.le_succ_of_le ih

/-- Quoted-printable comes back exactly if there is no soft line break in the text. -/
theorem quotedPrintable_decoded_iff (encodes : QuotedPrintable content text) :
    MimeDecoder.decodeTransferEncoding text (ascii "quoted-printable") = content ↔
      ¬ lineBreak <:+: text := by
  change MimeDecoder.quotedPrintable text = content ↔ _
  induction encodes with
  | nil => exact iff_of_true rfl (by decide)
  | literal literal _ ih =>
      rw [quotedPrintable_literal literal.ne_equals, infix_skip literal.ne_equals, ← ih]
      simp
  | @escaped c high low content text first second _ ih =>
      obtain ⟨-, -, -, highOther, notBreak⟩ := hexValue_plain first
      obtain ⟨-, -, -, lowOther, -⟩ := hexValue_plain second
      have inside : lineBreak <:+: Bytes.equals :: high :: low :: text ↔ lineBreak <:+: text := by
        rw [List.infix_cons_iff, infix_skip highOther, infix_skip lowOther]
        refine or_iff_right fun begins => notBreak ?_
        simp only [lineBreak, List.cons_prefix_cons] at begins
        exact begins.2.1.symm
      rw [quotedPrintable_escaped first second, inside, ← ih]
      simp
  | @softBreak content text encodes _ =>
      have there : lineBreak <:+: Bytes.equals :: Bytes.cr :: Bytes.lf :: text :=
        (List.prefix_append lineBreak text).isInfix
      have longer : content.length < (0 :: MimeDecoder.quotedPrintable text).length :=
        Nat.lt_succ_of_le encodes.length_decoded
      rw [quotedPrintable_softBreak]
      exact iff_of_false (fun same => longer.ne' (congrArg List.length same)) (not_not.mpr there)

/-- `a=b` in quoted-printable. -/
theorem quotedPrintable_decoded_equals :
    MimeDecoder.decodeTransferEncoding (ascii "a=3Db") (ascii "quoted-printable") = ascii "a=b" :=
  (@quotedPrintable_decoded_iff (ascii "a=b") _
    (.literal (by decide) (.escaped (by decide) (by decide) (.literal (by decide) .nil)))).mpr
    (by decide)

/-- `ab` with a soft line break in it comes back with a byte of zero. -/
theorem quotedPrintable_broken : QuotedPrintable (ascii "ab") (ascii "a=\r\nb") ∧
    MimeDecoder.decodeTransferEncoding (ascii "a=\r\nb") (ascii "quoted-printable") = [97, 0, 98] :=
  ⟨.literal (by decide) (.softBreak (.literal (by decide) .nil)), by decide⟩

end QuotedPrintable

end EmailServer.Mime
