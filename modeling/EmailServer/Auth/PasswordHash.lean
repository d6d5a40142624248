import EmailServer.Library.Base64

/-! # Password hashes

`PasswordHash::hash` prints the salt and the derived key in base64;
`PasswordHash::verify` takes such a text apart again. Key derivation, random
salts and the base64 decoder belong to OpenSSL and are parameters.
-/

namespace EmailServer.Auth

/-- The `saltlen` bytes of a salt. -/
abbrev Salt := Vector UInt8 16

/-- The `keylen` bytes of a derived key. -/
abbrev Key := Vector UInt8 32

/-- `PKCS5_PBKDF2_HMAC` with SHA-256 on password, salt and iteration count, and
    the decoder `base64_decode`. -/
structure OpenSsl where
  derive : Bytes → Bytes → Int → Option Key
  base64Decode : Bytes → Bytes

namespace PasswordHash

def dollar : UInt8 := 36

/-- `$pbkdf2-sha256$` -/
def header : Bytes := ascii "$pbkdf2-sha256$"

def ITERATIONS : Nat := 100000

/-- `std::stoi`; `none` when it throws. -/
def stoi (text : Bytes) : Option Int :=
  let text := text.dropWhile Bytes.isSpace
  let negative := text.head? == some 45
  let digits := (if negative || text.head? == some 43 then text.drop 1 else text).takeWhile
    Bytes.isDigit
  if digits = [] then none
  else
    let magnitude : Int := digits.foldl (fun n c => 10 * n + (c.toNat - 48)) 0
    let n := if negative then -magnitude else magnitude
    if n < -2 ^ 31 ∨ 2 ^ 31 ≤ n then none else some n

/-- The text of a hash. -/
def format (salt : Salt) (key : Key) : Bytes :=
  header ++ toDecimal ITERATIONS ++ ascii "$" ++ Base64.encode salt.toList ++ ascii "$" ++
    Base64.encode key.toList

/-- `salt` is what `RAND_bytes` gives. `none` when the function throws. -/
def hash (ssl : OpenSsl) (salt : Option Salt) (plaintext : Bytes) : Option Bytes :=
  if plaintext = [] then some []
  else
    match salt with
    | none => none
    | some salt => (ssl.derive plaintext salt.toList ITERATIONS).map (format salt)

def isHashed (str : Bytes) : Bool :=
  decide (str.length > 20) && str.head? == some dollar &&
    (str.take 15 == header || str.take 8 == ascii "$pbkdf2$")

/-- `none` when `std::stoi` throws. -/
def verify (ssl : OpenSsl) (plaintext hash : Bytes) : Option Bool :=
  if plaintext = [] ∨ hash = [] then some false
  else if hash.take 15 = header then
    match Bytes.cut dollar (hash.drop 15) with
    | none => some false
    | some (count, rest) =>
        match stoi count with
        | none => none
        | some iterations =>
            match Bytes.cut dollar rest with
            | none => some false
            | some (salt64, hash64) =>
                let salt := ssl.base64Decode salt64
                let key := ssl.base64Decode hash64
                if salt = [] ∨ key = [] then some false
                else
                  match ssl.derive plaintext salt iterations with
                  | none => some false
                  | some computed => some (computed.toList == key)
  else if !isHashed hash then
    -- the comparison of plaintexts that is left from the migration period
    some (plaintext == hash)
  else some false

/-! ## Hashes that were printed -/

variable {ssl : OpenSsl} {salt : Salt} {key : Key} {plaintext : Bytes}

theorem dollar_encode (data : Bytes) : dollar ∉ Base64.encode data :=
  Base64.not_mem_encode data (by decide)

theorem format_eq (salt : Salt) (key : Key) :
    format salt key = header ++ (toDecimal ITERATIONS ++ dollar :: (Base64.encode salt.toList ++
      dollar :: Base64.encode key.toList)) := by
  have separator : ascii "$" = [dollar] := by decide
  simp only [format, separator, List.append_assoc, List.cons_append, List.nil_append]

theorem header_length : header.length = 15 := by decide

theorem format_take (salt : Salt) (key : Key) : (format salt key).take 15 = header := by
  rw [format_eq, ← header_length, List.take_left]

theorem format_ne_nil (salt : Salt) (key : Key) : format salt key ≠ [] := by
  intro empty
  have taken := format_take salt key
  rw [empty] at taken
  exact absurd taken (by decide)

theorem isHashed_format (salt : Salt) (key : Key) : isHashed (format salt key) = true := by
  have count : (toDecimal ITERATIONS).length = 6 := by decide +kernel
  have long : (format salt key).length > 20 := by
    rw [format_eq]
    simp only [List.length_append, List.length_cons, header_length, count]
    omega
  have first : (format salt key).head? = some dollar := by
    rw [format_eq]
    rfl
  simp [isHashed, long, first, format_take]

/-- A password passes for the hash of another one when it derives the same key. -/
theorem verify_format (inverse : ∀ data, ssl.base64Decode (Base64.encode data) = data)
    (nonempty : plaintext ≠ []) :
    verify ssl plaintext (format salt key) =
      some (decide (ssl.derive plaintext salt.toList ITERATIONS = some key)) := by
  have count : stoi (toDecimal ITERATIONS) = some (ITERATIONS : Int) := by decide +kernel
  have clean : dollar ∉ toDecimal ITERATIONS := by decide +kernel
  have hasSalt : salt.toList ≠ [] := List.ne_nil_of_length_pos (by simp)
  have hasKey : key.toList ≠ [] := List.ne_nil_of_length_pos (by simp)
  have body : (format salt key).drop 15 = toDecimal ITERATIONS ++ dollar ::
      (Base64.encode salt.toList ++ dollar :: Base64.encode key.toList) := by
    rw [format_eq, ← header_length, List.drop_left]
  rw [verify, if_neg (by simp [nonempty, format_ne_nil]), if_pos (format_take salt key), body,
    Bytes.cut_append clean]
  simp only [count, Bytes.cut_append (dollar_encode _), inverse, hasSalt, hasKey, or_self,
    if_false]
  cases ssl.derive plaintext salt.toList ITERATIONS with
  | none => simp
  | some computed =>
      by_cases same : computed = key
      · simp [same]
      · simp [same]

end PasswordHash

end EmailServer.Auth
