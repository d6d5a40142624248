import EmailServer.Auth.CachedUsers
import EmailServer.Auth.Migration

/-! # Loading users into the distributed auth manager

`DistributedAuthManager::loadFromFile` adds every user of the file with the hash
of what the file says the password is. A user that cannot be added is skipped.
-/

namespace EmailServer.Auth.DistributedAuthManager

section Load

variable (yaml : YamlLibrary) (sha256 : Bytes → Vector UInt8 32) (times : Nat → Int)

/-- The loop over the users section. `times` are the readings of the steady
    clock, user by user. Returns false when an exception was thrown. -/
def addUsers (i : Nat) (s : DistributedAuthManager) : Yaml.Fields → Bool × DistributedAuthManager
  | [] => (true, s)
  | pair :: rest =>
      match readEntry yaml pair with
      | none => (false, s)
      | some entry =>
          match entry.password with
          | none => addUsers (i + 1) s rest
          | some password =>
              let hashedPassword := hashPassword sha256 password
              addUsers (i + 1) (s.addUser (times i) entry.name hashedPassword).2 rest

def loadFromFile (path : Bytes) (s : DistributedAuthManager) :
    AuthProg (Bool × DistributedAuthManager) :=
  .step (.readFile path) fun
    | none => .pure (false, s)
    | some raw =>
        match yaml.load raw with
        | none => .pure (false, s)
        | some root =>
            match (usersSection root).bind Yaml.pairs with
            | none => .pure (false, s)
            | some pairs => .pure (addUsers yaml sha256 times 0 s pairs)

end Load

/-- The answer, with the user name if it was set. -/
def authenticateSmtp (sha256 : Bytes → Vector UInt8 32) (args : Bytes) (s : DistributedAuthManager) :
    Bool × Option Bytes :=
  if !Bytes.contains (ascii "PLAIN") args then (false, none)
  else
    match Bytes.cut Bytes.space args with
    | none => (false, none)
    | some (_, authData) =>
        match Bytes.cut Bytes.space authData with
        | none => (false, none)
        | some (username, password) => (s.validate sha256 username password, some username)

/-! ## The users that were added -/

section Users

variable {yaml : YamlLibrary} {sha256 : Bytes → Vector UInt8 32} {times : Nat → Int}
  {s t : DistributedAuthManager} {creds : List Credential} {pairs : Yaml.Fields}

/-- The users as they are kept in the cluster. -/
def registered (s : DistributedAuthManager) : Users := fun name => s.userCache (s.userKey name)

end Users

end EmailServer.Auth.DistributedAuthManager
