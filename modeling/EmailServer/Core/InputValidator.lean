import EmailServer.Library.TextSearch

/-! # Input validation -/

namespace EmailServer.Core.InputValidator

open Bytes (find upTo)

/-- `[a-zA-Z0-9._-]` -/
def usernameChar (c : UInt8) : Bool := Bytes.isPlain c || c == 95 || c == 45

def isValidUsername (username : Bytes) : Bool :=
  !username.isEmpty && decide (username.length ≤ 64) && username.all usernameChar

def sanitizeUsername (username : Bytes) : Bytes :=
  let sanitized := username.filter usernameChar
  if 64 < sanitized.length then sanitized.take 64 else sanitized

def containsPathTraversal (path : Bytes) : Bool :=
  (find (ascii "..") path).isSome || (find (ascii "//") path).isSome ||
    (find (ascii "\\") path).isSome || path.head? == some 47

/-- `inside` is what the file system says of a path: joined to the base directory, it begins with
    that directory. -/
def isValidPath (inside : Bytes → Bool) (path : Bytes) : Bool :=
  if path.isEmpty then false else if containsPathTraversal path then false else inside path

/-- The loop that erases `..`, each time from the start of the text. -/
def eraseDotDot (sanitized : Bytes) : Bytes :=
  match _found : find (ascii "..") sanitized with
  | none => sanitized
  | some hit => eraseDotDot (upTo (ascii "..") sanitized ++ hit.drop 2)
termination_by sanitized.length
decreasing_by exact Bytes.length_erase_lt (by decide) _found

def sanitizePath (inside : Bytes → Bool) (path : Bytes) : Bytes :=
  let sanitized := eraseDotDot path
  -- backslashes, and then the slashes in front
  let sanitized := sanitized.filter (· != 92)
  let sanitized := sanitized.dropWhile (· == 47)
  if !isValidPath inside sanitized then [] else sanitized

theorem isValidUsername_iff {s : Bytes} :
    isValidUsername s = true ↔ s ≠ [] ∧ s.length ≤ 64 ∧ ∀ c ∈ s, usernameChar c = true := by
  simp [isValidUsername, and_assoc]

end EmailServer.Core.InputValidator
