import EmailServer.Imap.ImapSession
import EmailServer.Library.Spelling

/-! # The arguments of a login

A client writes the password as a quoted string, in which a backslash stands before a quote and
before a backslash. `handleLogin` cuts its arguments at white space and takes the quotes off the
words. It has no way to read a backslash, and none to read a space.
-/

namespace EmailServer.Imap

open EmailServer.Core

def backslash : UInt8 := 92

/-- A character of a quoted string. -/
def quotedChar (c : UInt8) : Bytes := if c = quote ∨ c = backslash then [backslash, c] else [c]

def quoted (text : Bytes) : Bytes := quote :: text.flatMap quotedChar ++ [quote]

/-- The names and passwords `validate` was called with, latest first. -/
def validated (log : List Event) : List (Bytes × Bytes) :=
  log.filterMap fun
    | .validate _ user pass _ => some (user, pass)
    | _ => none

/-- The text can be a word. -/
def Solid (text : Bytes) : Prop := ∀ c ∈ text, Bytes.isSpace c = false

/-! ## Words -/

section Words

variable {text rest : Bytes}

theorem word_solid : Solid (word text).1 := by
  intro c member
  simpa using List.mem_takeWhile_imp member

theorem word_append (solid : Solid text) (stop : ∀ c, rest.head? = some c → Bytes.isSpace c = true)
    (nonempty : text ≠ []) : word (text ++ rest) = (text, rest) := by
  obtain ⟨c, text, rfl⟩ := List.exists_cons_of_ne_nil nonempty
  have start : ((c :: text) ++ rest).dropWhile Bytes.isSpace = (c :: text) ++ rest :=
    List.dropWhile_cons_of_neg (by simp [solid c])
  have letters : ∀ d ∈ c :: text, (!Bytes.isSpace d) = true := fun d member => by
    simp [solid d member]
  unfold word
  rw [start]
  dsimp only
  rw [List.takeWhile_append_of_pos letters, List.dropWhile_append_of_pos letters]
  cases rest with
  | nil => simp
  | cons d rest => simp [stop d rfl]

theorem word_space : word (Bytes.space :: text) = word text := by
  have blank : Bytes.isSpace Bytes.space = true := rfl
  simp only [word, List.dropWhile_cons_of_pos blank]

theorem word_ne_nil {c : UInt8} (solid : Bytes.isSpace c = false) : (word (c :: text)).1 ≠ [] := by
  simp [word, solid]

theorem stripQuotes_quoted : stripQuotes (quote :: text ++ [quote]) = text := by
  rw [stripQuotes, if_pos ⟨by simp, rfl, List.getLast?_concat⟩]
  simp

theorem stripQuotes_plain (plain : text.head? ≠ some quote) : stripQuotes text = text :=
  if_neg fun quotes => plain quotes.2.1

theorem stripQuotes_sublist : (stripQuotes text).Sublist text := by
  unfold stripQuotes
  split
  · exact (List.take_sublist _ _).trans (List.drop_sublist _ _)
  · exact List.Sublist.refl text

end Words

section Login

variable {c : Conn} {tag args user pass name : Bytes}

theorem handleLogin_validated (unauthed : c.session.authed = false) (userGiven : (word args).1 ≠ [])
    (passGiven : (word (word args).2).1 ≠ [])
    (valid : InputValidator.isValidUsername (stripQuotes (word args).1) = true) :
    validated (handleLogin tag args c).conn.env.log =
      (stripQuotes (word args).1, stripQuotes (word (word args).2).1) :: validated c.env.log := by
  unfold handleLogin
  simp only [unauthed, Bool.false_eq_true, if_false, userGiven, passGiven, or_self, valid,
    Bool.not_true]
  split <;> rfl

theorem usernameChar_solid {ch : UInt8} (valid : InputValidator.usernameChar ch = true) :
    Bytes.isSpace ch = false ∧ ch ≠ quote ∧ ch ≠ backslash := by
  have all : ∀ n : Fin 256, InputValidator.usernameChar (UInt8.ofNat n) = true →
      Bytes.isSpace (UInt8.ofNat n) = false ∧ UInt8.ofNat n ≠ quote ∧ UInt8.ofNat n ≠ backslash := by
    decide +kernel
  simpa using all ⟨ch.toNat, ch.toNat_lt⟩ (by simpa using valid)

theorem quoted_username (valid : InputValidator.isValidUsername user = true) :
    quoted user = quote :: user ++ [quote] := by
  obtain ⟨-, -, chars⟩ := InputValidator.isValidUsername_iff.mp valid
  have plain : user.flatMap quotedChar = user := by
    conv_rhs => rw [← List.flatMap_singleton' user]
    refine List.flatMap_congr fun ch member => ?_
    obtain ⟨-, notQuote, notBackslash⟩ := usernameChar_solid (chars ch member)
    exact if_neg (by simp [notQuote, notBackslash])
  rw [quoted, plain]

theorem username_read (valid : InputValidator.isValidUsername user = true)
    (spelled : name = user ∨ name = quoted user) :
    Solid name ∧ name ≠ [] ∧ stripQuotes name = user := by
  obtain ⟨nonempty, -, chars⟩ := InputValidator.isValidUsername_iff.mp valid
  have solid : Solid user := fun ch member => (usernameChar_solid (chars ch member)).1
  have quoteSolid : Bytes.isSpace quote = false := rfl
  obtain rfl | rfl := spelled
  · refine ⟨solid, nonempty, stripQuotes_plain fun head => ?_⟩
    exact (usernameChar_solid (chars quote (List.mem_of_head? head))).2.1 rfl
  · rw [quoted_username valid]
    refine ⟨?_, by simp, stripQuotes_quoted⟩
    intro ch member
    simp only [List.cons_append, List.mem_cons, List.mem_append, List.not_mem_nil, or_false] at member
    obtain rfl | member | rfl := member
    · exact quoteSolid
    · exact solid ch member
    · exact quoteSolid

/-- The arguments as the grammar has them. -/
def loginArguments (name pass : Bytes) : Bytes := name ++ Bytes.space :: quoted pass

theorem handleLogin_arguments (unauthed : c.session.authed = false)
    (valid : InputValidator.isValidUsername user = true) (spelled : name = user ∨ name = quoted user) :
    validated (handleLogin tag (loginArguments name pass) c).conn.env.log =
      (user, stripQuotes (word (quoted pass)).1) :: validated c.env.log := by
  obtain ⟨solid, nonempty, read⟩ := username_read valid spelled
  have first : word (loginArguments name pass) = (name, Bytes.space :: quoted pass) :=
    word_append solid (fun ch head => by cases Option.some.inj head; rfl) nonempty
  have second : (word (quoted pass)).1 ≠ [] := word_ne_nil (c := quote) rfl
  have called := @handleLogin_validated c tag (loginArguments name pass) unauthed (by rwa [first]) (by rwa [first, word_space]) (by rwa [first, read])
  rw [called, first, read, word_space]

theorem quoted_read (solid : Solid pass) :
    stripQuotes (word (quoted pass)).1 = pass ↔ ∀ ch ∈ pass, ch ≠ quote ∧ ch ≠ backslash := by
  have inner : Solid (quoted pass) := by
    intro ch member
    simp only [quoted, List.cons_append, List.mem_cons, List.mem_append, List.mem_flatMap,
      List.not_mem_nil, or_false] at member
    obtain rfl | ⟨d, inPass, member⟩ | rfl := member
    · rfl
    · unfold quotedChar at member
      split at member
      · obtain rfl | rfl : ch = backslash ∨ ch = d := by simpa using member
        · rfl
        · exact solid ch inPass
      · rw [List.mem_singleton.mp member]
        exact solid d inPass
    · rfl
  have whole : word (quoted pass) = (quoted pass, []) := by
    have read := @word_append (quoted pass) [] inner (by simp) (by simp [quoted])
    rwa [List.append_nil] at read
  rw [whole, quoted, stripQuotes_quoted]
  conv_lhs => rw [← List.flatMap_singleton' pass, List.flatMap_assoc]
  simp only [List.flatMap_singleton]
  refine Spelling.flatMap_eq_iff_forall _ (fun ch _ plain => ?_) fun ch _ special => ?_
  · exact if_neg (by simp [plain.1, plain.2])
  · have escaped : ch = quote ∨ ch = backslash := by tauto
    simp [quotedChar, escaped]

/-- A login calls `validate` with the name and the password of the client exactly if there is no
space, no quote and no backslash in the password. -/
theorem login_called_iff (unauthed : c.session.authed = false)
    (valid : InputValidator.isValidUsername user = true) (spelled : name = user ∨ name = quoted user)
    (printable : ∀ ch ∈ pass, 32 ≤ ch ∧ ch ≤ 126) :
    validated (handleLogin tag (loginArguments name pass) c).conn.env.log =
        (user, pass) :: validated c.env.log ↔
      ∀ ch ∈ pass, ch ≠ Bytes.space ∧ ch ≠ quote ∧ ch ≠ backslash := by
  have same : validated (handleLogin tag (loginArguments name pass) c).conn.env.log =
      (user, pass) :: validated c.env.log ↔ stripQuotes (word (quoted pass)).1 = pass := by
    rw [handleLogin_arguments unauthed valid spelled]
    simp
  rw [same]
  by_cases spaced : Bytes.space ∈ pass
  · have cutOff : stripQuotes (word (quoted pass)).1 ≠ pass := by
      intro read
      have member : Bytes.space ∈ stripQuotes (word (quoted pass)).1 := by rwa [read]
      exact absurd (word_solid _ (stripQuotes_sublist.subset member)) (by decide)
    exact iff_of_false cutOff fun all => (all _ spaced).1 rfl
  · have other : ∀ ch ∈ pass, ch ≠ Bytes.space := fun ch member same => spaced (same ▸ member)
    have solid : Solid pass := by
      intro ch member
      have low := (printable ch member).1
      rw [UInt8.le_iff_toNat_le] at low
      have above : ¬ ch ≤ 13 := by
        rw [UInt8.le_iff_toNat_le]
        change 32 ≤ ch.toNat at low
        change ¬ ch.toNat ≤ 13
        omega
      have different : ch ≠ 32 := other ch member
      simp [Bytes.isSpace, different, above]
    rw [quoted_read solid]
    exact forall₂_congr fun ch member => by simp [other ch member]

/-- A connection over TLS before the login. -/
def secured : Conn := Conn.fresh (some ⟨772, some 256⟩) {}

theorem login_called_bob :
    validated (handleLogin (ascii "a1") (loginArguments (quoted (ascii "bob")) (ascii "s3cret")) secured
      ).conn.env.log = [(ascii "bob", ascii "s3cret")] :=
  (@login_called_iff secured (ascii "a1") (ascii "bob") (ascii "s3cret") (quoted (ascii "bob")) rfl
    (by decide +kernel) (.inr rfl) (by decide +kernel)).mpr (by decide +kernel)

/-- `a1 LOGIN bob "my pass"` asks for the password `"my`, and the password `a"b` for `a\"b`. -/
theorem login_called_other :
    validated (handleLogin (ascii "a1") (loginArguments (ascii "bob") (ascii "my pass")) secured
        ).conn.env.log = [(ascii "bob", ascii "\"my")] ∧
      validated (handleLogin (ascii "a1") (loginArguments (ascii "bob") (ascii "a\"b")) secured
        ).conn.env.log = [(ascii "bob", ascii "a\\\"b")] := by
  decide +kernel

end Login

end EmailServer.Imap
