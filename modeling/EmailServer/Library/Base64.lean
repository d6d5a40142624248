import EmailServer.Library.Bytes

/-! # Base64

The standard alphabet with padding, three bytes to four characters. The decoder
takes what the encoder writes and nothing else.
-/

namespace EmailServer.Base64

/-- The padding character. -/
def pad : UInt8 := 61

/-- The character of a number below 64. -/
def letter (n : Nat) : UInt8 :=
  if n < 26 then (n + 65).toUInt8
  else if n < 52 then (n + 71).toUInt8
  else if n < 62 then (n - 4).toUInt8
  else if n = 62 then 43 else 47

/-- The number a character stands for. -/
def value (c : UInt8) : Option Nat :=
  if 65 ≤ c ∧ c ≤ 90 then some (c.toNat - 65)
  else if 97 ≤ c ∧ c ≤ 122 then some (c.toNat - 71)
  else if 48 ≤ c ∧ c ≤ 57 then some (c.toNat + 4)
  else if c = 43 then some 62
  else if c = 47 then some 63
  else none

def encode : Bytes → Bytes
  | a :: b :: c :: rest =>
      letter (a.toNat / 4) :: letter (a.toNat % 4 * 16 + b.toNat / 16) ::
        letter (b.toNat % 16 * 4 + c.toNat / 64) :: letter (c.toNat % 64) :: encode rest
  | [a, b] =>
      [letter (a.toNat / 4), letter (a.toNat % 4 * 16 + b.toNat / 16), letter (b.toNat % 16 * 4),
        pad]
  | [a] => [letter (a.toNat / 4), letter (a.toNat % 4 * 16), pad, pad]
  | [] => []

/-- The bytes of a group of four characters, of which the last may be missing. -/
def group (w x y z : Nat) : Bytes :=
  [(w * 4 + x / 16).toUInt8, (x % 16 * 16 + y / 4).toUInt8, (y % 4 * 64 + z).toUInt8]

def decode : Bytes → Option Bytes
  | [] => some []
  | w :: x :: y :: z :: rest =>
      if y = pad ∧ z = pad ∧ rest = [] then do
        return (group (← value w) (← value x) 0 0).take 1
      else if z = pad ∧ rest = [] then do
        return (group (← value w) (← value x) (← value y) 0).take 2
      else do
        return group (← value w) (← value x) (← value y) (← value z) ++ (← decode rest)
  | _ => none

theorem value_letter {n : Nat} (small : n < 64) : value (letter n) = some n := by
  have all : ∀ m : Fin 64, value (letter m) = some m.val := by decide
  exact all ⟨n, small⟩

theorem letter_plain {n : Nat} (small : n < 64) :
    Bytes.isAlpha (letter n) = true ∨ Bytes.isDigit (letter n) = true ∨ letter n = 43 ∨
      letter n = 47 := by
  have all : ∀ m : Fin 64, Bytes.isAlpha (letter m) = true ∨ Bytes.isDigit (letter m) = true ∨
      letter m = 43 ∨ letter m = 47 := by decide
  exact all ⟨n, small⟩

theorem letter_ne_pad {n : Nat} (small : n < 64) : letter n ≠ pad := by
  have all : ∀ m : Fin 64, letter m ≠ pad := by decide
  exact all ⟨n, small⟩

theorem byte_eq {n : Nat} {b : UInt8} (same : n = b.toNat) : n.toUInt8 = b := by
  rw [same]
  exact UInt8.ofNat_toNat

theorem decode_encode (data : Bytes) : decode (encode data) = some data := by
  induction data using encode.induct with
  | case1 a b c rest ih =>
      have boundA := a.toNat_lt
      have boundB := b.toNat_lt
      have boundC := c.toNat_lt
      have last : letter (c.toNat % 64) ≠ pad := letter_ne_pad (by omega)
      rw [encode, decode, if_neg fun padded => last padded.2.1, if_neg fun padded => last padded.1,
        value_letter (by omega), value_letter (by omega), value_letter (by omega),
        value_letter (by omega), ih]
      have first : (a.toNat / 4 * 4 + (a.toNat % 4 * 16 + b.toNat / 16) / 16).toUInt8 = a :=
        byte_eq (by omega)
      have second : ((a.toNat % 4 * 16 + b.toNat / 16) % 16 * 16 +
          (b.toNat % 16 * 4 + c.toNat / 64) / 4).toUInt8 = b := byte_eq (by omega)
      have third : ((b.toNat % 16 * 4 + c.toNat / 64) % 4 * 64 + c.toNat % 64).toUInt8 = c :=
        byte_eq (by omega)
      change some (group _ _ _ _ ++ rest) = _
      rw [group, first, second, third]
      rfl
  | case2 a b =>
      have boundA := a.toNat_lt
      have boundB := b.toNat_lt
      have third : letter (b.toNat % 16 * 4) ≠ pad := letter_ne_pad (by omega)
      rw [encode, decode, if_neg fun padded => third padded.1, if_pos ⟨rfl, rfl⟩,
        value_letter (by omega), value_letter (by omega), value_letter (by omega)]
      have first : (a.toNat / 4 * 4 + (a.toNat % 4 * 16 + b.toNat / 16) / 16).toUInt8 = a :=
        byte_eq (by omega)
      have second : ((a.toNat % 4 * 16 + b.toNat / 16) % 16 * 16 +
          b.toNat % 16 * 4 / 4).toUInt8 = b := byte_eq (by omega)
      change some ((group _ _ _ _).take 2) = _
      rw [group, first, second]
      rfl
  | case3 a =>
      have boundA := a.toNat_lt
      rw [encode, decode, if_pos ⟨rfl, rfl, rfl⟩, value_letter (by omega), value_letter (by omega)]
      have first : (a.toNat / 4 * 4 + a.toNat % 4 * 16 / 16).toUInt8 = a := byte_eq (by omega)
      change some ((group _ _ _ _).take 1) = _
      rw [group, first]
      rfl
  | case4 => rfl

theorem encode_injective {s t : Bytes} (same : encode s = encode t) : s = t := by
  have decoded := congrArg decode same
  rwa [decode_encode, decode_encode, Option.some.injEq] at decoded

theorem length_encode (data : Bytes) : 4 * data.length ≤ 3 * (encode data).length := by
  induction data using encode.induct with
  | case1 a b c rest ih =>
      simp only [encode, List.length_cons]
      omega
  | case2 a b => simp [encode]
  | case3 a => simp [encode]
  | case4 => simp [encode]

theorem head_encode_append {data rest : Bytes} {c : UInt8} (other : c ≠ pad) :
    (encode data ++ c :: rest).head? ≠ some pad := by
  have first : ∀ {a : UInt8}, letter (a.toNat / 4) ≠ pad := by
    intro a
    have bound := a.toNat_lt
    exact letter_ne_pad (by omega)
  cases data using encode.induct with
  | case1 | case2 | case3 => simpa [encode] using first
  | case4 => simpa [encode] using other

theorem mem_encode {data : Bytes} {c : UInt8} (member : c ∈ encode data) :
    Bytes.isAlpha c = true ∨ Bytes.isDigit c = true ∨ c = 43 ∨ c = 47 ∨ c = pad := by
  have plain : ∀ n < 64, c = letter n →
      Bytes.isAlpha c = true ∨ Bytes.isDigit c = true ∨ c = 43 ∨ c = 47 ∨ c = pad := by
    intro n small same
    rw [same]
    rcases letter_plain small with alpha | digit | plus | slash
    · exact .inl alpha
    · exact .inr (.inl digit)
    · exact .inr (.inr (.inl plus))
    · exact .inr (.inr (.inr (.inl slash)))
  induction data using encode.induct with
  | case1 a b c' rest ih =>
      have boundA := a.toNat_lt
      have boundB := b.toNat_lt
      have boundC := c'.toNat_lt
      simp only [encode, List.mem_cons] at member
      rcases member with same | same | same | same | later
      · exact plain _ (by omega) same
      · exact plain _ (by omega) same
      · exact plain _ (by omega) same
      · exact plain _ (by omega) same
      · exact ih later
  | case2 a b =>
      have boundA := a.toNat_lt
      have boundB := b.toNat_lt
      simp only [encode, List.mem_cons, List.not_mem_nil, or_false] at member
      rcases member with same | same | same | same
      · exact plain _ (by omega) same
      · exact plain _ (by omega) same
      · exact plain _ (by omega) same
      · exact .inr (.inr (.inr (.inr same)))
  | case3 a =>
      have boundA := a.toNat_lt
      simp only [encode, List.mem_cons, List.not_mem_nil, or_false] at member
      rcases member with same | same | same | same
      · exact plain _ (by omega) same
      · exact plain _ (by omega) same
      · exact .inr (.inr (.inr (.inr same)))
      · exact .inr (.inr (.inr (.inr same)))
  | case4 => cases member

theorem not_mem_encode {c : UInt8} (data : Bytes) (foreign : Bytes.isAlpha c = false ∧
    Bytes.isDigit c = false ∧ c ≠ 43 ∧ c ≠ 47 ∧ c ≠ pad) : c ∉ encode data := by
  intro member
  rcases mem_encode member with alpha | digit | plus | slash | padding
  · rw [foreign.1] at alpha
    cases alpha
  · rw [foreign.2.1] at digit
    cases digit
  · exact foreign.2.2.1 plus
  · exact foreign.2.2.2.1 slash
  · exact foreign.2.2.2.2 padding

end EmailServer.Base64
