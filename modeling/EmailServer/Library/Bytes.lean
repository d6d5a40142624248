import Mathlib.Algebra.Order.Ring.Nat
import Mathlib.Data.List.Basic
import Mathlib.Data.List.TakeWhile

/-! # Byte strings

A `std::string` is a list of bytes. Texts of the source are written with
`ascii`, which the kernel evaluates.
-/

namespace EmailServer

abbrev Bytes := List UInt8

instance : LawfulBEq Bytes := inferInstance

/-- The bytes of a text constant. -/
def ascii (text : String) : Bytes := text.toList.map fun c => c.toNat.toUInt8

/-- `std::to_string` of an unsigned number. -/
def toDecimal (n : Nat) : Bytes := (Nat.toDigits 10 n).map fun c => c.toNat.toUInt8

/-- A digit as `std::hex` writes it. -/
def hexDigit (n : Nat) : UInt8 := (if n < 10 then 48 + n else 87 + n).toUInt8

/-- A byte as two hexadecimal digits. -/
def hexByte (b : UInt8) : Bytes := [hexDigit (b.toNat / 16), hexDigit (b.toNat % 16)]

namespace Bytes

def cr : UInt8 := 13
def lf : UInt8 := 10
def space : UInt8 := 32
def dot : UInt8 := 46
def colon : UInt8 := 58

/-- `isspace` in the "C" locale. -/
def isSpace (c : UInt8) : Bool := c == 32 || (9 ≤ c && c ≤ 13)

/-- `toupper` in the "C" locale. -/
def toUpper (c : UInt8) : UInt8 := if 97 ≤ c && c ≤ 122 then c - 32 else c

/-- `isalpha` in the "C" locale. -/
def isAlpha (c : UInt8) : Bool := (65 ≤ c && c ≤ 90) || (97 ≤ c && c ≤ 122)

def isDigit (c : UInt8) : Bool := 48 ≤ c && c ≤ 57

/-- A letter, a digit or a dot. -/
def isPlain (c : UInt8) : Bool := isAlpha c || isDigit c || c == dot

theorem isPlain_ne {c d : UInt8} (plain : isPlain c = true) (other : isPlain d = false) :
    c ≠ d := by
  rintro rfl
  rw [plain] at other
  contradiction

/-- Cut at every byte that satisfies `sep`, keeping empty pieces. -/
def splitOn (sep : UInt8 → Bool) : Bytes → List Bytes
  | [] => [[]]
  | c :: rest =>
      if sep c then [] :: splitOn sep rest
      else match splitOn sep rest with
        | [] => [[c]]
        | piece :: pieces => (c :: piece) :: pieces

variable {sep : UInt8 → Bool}

theorem splitOn_whole {s : Bytes} (clean : ∀ c ∈ s, sep c = false) : splitOn sep s = [s] := by
  induction s with
  | nil => rfl
  | cons c rest ih =>
      rw [splitOn, ih fun d member => clean d (List.mem_cons_of_mem c member)]
      simp [clean c]

theorem splitOn_ending (s : Bytes) {ending : Bytes} (clean : ∀ c ∈ ending, sep c = false) :
    ∃ pieces last, splitOn sep (s ++ ending) = pieces ++ [last] ∧ ending <:+ last := by
  induction s with
  | nil => exact ⟨[], ending, splitOn_whole clean, List.suffix_rfl⟩
  | cons c rest ih =>
      obtain ⟨pieces, last, split, isEnding⟩ := ih
      rw [List.cons_append, splitOn, split]
      by_cases separates : sep c = true
      · exact ⟨[] :: pieces, last, by simp [separates], isEnding⟩
      · cases pieces with
        | nil =>
            exact ⟨[], c :: last, by simp [separates], isEnding.trans (List.suffix_cons c last)⟩
        | cons piece pieces => exact ⟨(c :: piece) :: pieces, last, by simp [separates], isEnding⟩

/-- `text.find(sep)`: the text on both sides of the first separator. -/
def cut (sep : UInt8) (text : Bytes) : Option (Bytes × Bytes) :=
  if sep ∈ text then some (text.takeWhile (· != sep), (text.dropWhile (· != sep)).drop 1) else none

theorem bne_of_not_mem {sep : UInt8} {text : Bytes} (clean : sep ∉ text) :
    ∀ c ∈ text, (c != sep) = true := by
  intro c member
  simp only [bne_iff_ne, ne_eq]
  rintro rfl
  exact clean member

theorem cut_none {sep : UInt8} {text : Bytes} (absent : sep ∉ text) : cut sep text = none :=
  if_neg absent

theorem cut_append {sep : UInt8} {before : Bytes} (clean : sep ∉ before) (after : Bytes) :
    cut sep (before ++ sep :: after) = some (before, after) := by
  have stop := bne_of_not_mem clean
  rw [cut, if_pos (by simp), List.takeWhile_append_of_pos stop, List.dropWhile_append_of_pos stop]
  simp

theorem cut_clean {sep : UInt8} {text before after : Bytes}
    (parts : cut sep text = some (before, after)) : sep ∉ before := by
  unfold cut at parts
  split at parts
  · obtain ⟨rfl, -⟩ := Prod.mk.inj (Option.some.inj parts)
    intro member
    simpa using List.mem_takeWhile_imp member
  · cases parts

theorem cut_eq {sep : UInt8} {text before after : Bytes}
    (parts : cut sep text = some (before, after)) : text = before ++ sep :: after := by
  unfold cut at parts
  split at parts
  · rename_i there
    obtain ⟨rfl, rfl⟩ := Prod.mk.inj (Option.some.inj parts)
    have rest : text.dropWhile (· != sep) ≠ [] := by
      rw [ne_eq, List.dropWhile_eq_nil_iff]
      intro all
      simpa using all sep there
    have first : (text.dropWhile (· != sep)).head rest = sep := by
      simpa using List.head_dropWhile_not (· != sep) rest
    conv_lhs => rw [← List.takeWhile_append_dropWhile (p := (· != sep)) (l := text)]
    rw [List.append_right_inj]
    conv_lhs => rw [← List.cons_head_tail rest]
    rw [first, List.drop_one]
  · cases parts

/-- `text.find(word) != npos` -/
def contains (word : Bytes) : Bytes → Bool
  | [] => word.isEmpty
  | c :: rest => word.isPrefixOf (c :: rest) || contains word rest

end Bytes

private theorem digit_byte {c : Char} (digit : c.isDigit = true) :
    Char.ofNat c.toNat.toUInt8.toNat = c ∧ (48 ≤ c.toNat ∧ c.toNat ≤ 57) := by
  have bounds : 48 ≤ c.toNat ∧ c.toNat ≤ 57 := by
    simpa [Char.isDigit, UInt32.le_iff_toNat_le] using digit
  refine ⟨?_, bounds⟩
  have small : c.toNat.toUInt8.toNat = c.toNat := by
    simp only [Nat.toUInt8_eq, UInt8.toNat_ofNat']
    omega
  rw [small, Char.ofNat_toNat]

theorem toDecimal_injective {m n : Nat} (same : toDecimal m = toDecimal n) : m = n := by
  have decode : ∀ k, (toDecimal k).map (fun b => Char.ofNat b.toNat) = Nat.toDigits 10 k := by
    intro k
    rw [toDecimal, List.map_map]
    conv_rhs => rw [← List.map_id (Nat.toDigits 10 k)]
    apply List.map_congr_left
    intro c member
    exact (digit_byte (Nat.isDigit_of_mem_toDigits (by decide) (by decide) member)).1
  have digits : Nat.toDigits 10 m = Nat.toDigits 10 n := by rw [← decode m, same, decode n]
  rw [← Nat.ofDigitChars_ten_toDigits (n := m), digits, Nat.ofDigitChars_ten_toDigits]

theorem toDecimal_ne_nil (n : Nat) : toDecimal n ≠ [] := by
  simp [toDecimal, Nat.toDigits_ne_nil]

theorem toDecimal_digit {n : Nat} {b : UInt8} (member : b ∈ toDecimal n) : 48 ≤ b ∧ b ≤ 57 := by
  obtain ⟨c, inDigits, rfl⟩ := List.mem_map.mp member
  have bounds := (digit_byte (Nat.isDigit_of_mem_toDigits (by decide) (by decide) inDigits)).2
  have small : c.toNat.toUInt8.toNat = c.toNat := by
    simp only [Nat.toUInt8_eq, UInt8.toNat_ofNat']
    omega
  constructor <;> rw [UInt8.le_iff_toNat_le, small]
  · exact bounds.1
  · exact bounds.2

end EmailServer
