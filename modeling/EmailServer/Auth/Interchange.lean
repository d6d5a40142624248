import Mathlib.Data.List.Forall2
import EmailServer.Auth.UsersFile
import EmailServer.Auth.DistributedLoad

/-! # One auth manager in place of the other

The server asks the distributed auth manager instead of the local one when high
availability is enabled. Both load the same users file, but the distributed one
hashes hashes again and reads the user name and the password of an AUTH line
from the plain text between spaces.
-/

namespace EmailServer.Auth

/-- The password is the one that belongs to what the file says. -/
inductive Fits (ssl : OpenSsl) : Bytes → Bytes → Prop
  | plaintext {password : Bytes} : PasswordHash.isHashed password = false → password ≠ [] →
      Fits ssl password password
  | hash {salt : Salt} {key : Key} {password : Bytes} : password ≠ [] →
      ssl.derive password salt.toList PasswordHash.ITERATIONS = some key →
      Fits ssl (PasswordHash.format salt key) password

/-- A password of the file: a plaintext or a hash as `PasswordHash::hash` prints it. -/
def WellFormed (written : Bytes) : Prop :=
  written ≠ [] ∧
    (PasswordHash.isHashed written = false ∨ ∃ salt key, written = PasswordHash.format salt key)

section Fits

variable {ssl : OpenSsl} {salt : Salt} {key : Key} {written password : Bytes}

end Fits

section Managers

variable {ssl : OpenSsl} {sha256 : Bytes → Vector UInt8 32} {base64Decode : Bytes → Bytes}
  {users : Users} {m : DistributedAuthManager} {creds creds' : List Credential}
  {user pass args : Bytes}

/-! ## The local manager -/

/-- The AUTH line of a client. -/
def plainLine (user pass : Bytes) : Bytes :=
  ascii "PLAIN " ++ Base64.encode (0 :: (user ++ 0 :: pass))

theorem local_plainLine (codec : ∀ data, base64Decode (Base64.encode data) = data)
    (clean : 0 ∉ user) : AuthManager.authenticateSmtp ssl base64Decode users (plainLine user pass) =
      (AuthManager.validate ssl users user pass).map fun answer => (answer, some user) := by
  have word : (ascii "PLAIN ").length = 6 := by decide
  have taken : (plainLine user pass).take 6 = ascii "PLAIN " := by
    rw [plainLine, ← word, List.take_left]
  have rest : (plainLine user pass).drop 6 = Base64.encode (0 :: (user ++ 0 :: pass)) := by
    rw [plainLine, ← word, List.drop_left]
  have parts : AuthManager.plainCredentials (0 :: (user ++ 0 :: pass)) = some (user, pass) := by
    have outer : Bytes.cut 0 (0 :: (user ++ 0 :: pass)) = some ([], user ++ 0 :: pass) :=
      @Bytes.cut_append 0 [] (by simp) _
    simp [AuthManager.plainCredentials, outer, Bytes.cut_append clean]
  simp [AuthManager.authenticateSmtp, taken, rest, codec, parts]

/-! ## The distributed manager -/

end Managers

/-! ## Bob's login -/

def mixedDecode (text : Bytes) : Bytes := (Base64.decode text).getD []

theorem mixed_codec (data : Bytes) : mixedDecode (Base64.encode data) = data := by
  simp [mixedDecode, Base64.decode_encode]

theorem bob_validated : AuthManager.validate mixedSsl mixedStored (ascii "bob") (ascii "secret") =
    some true := by
  have stored : mixedStored (ascii "bob") = some bobsHash := by
    simp [mixedStored, overlay_stored, overlay_nil]
  have derived : mixedSsl.derive (ascii "secret") bobsSalt.toList PasswordHash.ITERATIONS =
      some bobsKey := by
    simp [mixedSsl, PasswordHash.ITERATIONS]
  exact validate_migrated mixed_inverse secret_plain (by decide)
    (.plaintext _ secret_plain (by decide) derived) stored

theorem bobs_line : ascii "PLAIN AGJvYgBzZWNyZXQ=" = plainLine (ascii "bob") (ascii "secret") := by
  decide +kernel

theorem bob_authenticated : AuthManager.authenticateSmtp mixedSsl mixedDecode mixedStored
    (ascii "PLAIN AGJvYgBzZWNyZXQ=") = some (true, some (ascii "bob")) := by
  rw [bobs_line, local_plainLine mixed_codec (by decide), bob_validated]
  rfl

end EmailServer.Auth
