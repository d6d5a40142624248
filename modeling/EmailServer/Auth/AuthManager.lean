import Mathlib.Logic.Function.Basic
import EmailServer.Library.Yaml
import EmailServer.Auth.PasswordHash
import EmailServer.Storage.AtomicWrite

/-! # The local auth manager

`AuthManager` loads its users from a YAML file and replaces plaintext passwords
in the file by hashes. The users are stored as the passes over the tree go on,
so a load that fails can have changed them. Logs and audit records are left out.
-/

namespace EmailServer.Auth

/-- Programs on the users file and the file beside it. -/
abbrev AuthProg := FileProg Bytes Unit

/-- `users_`: user name to password hash. -/
abbrev Users := Bytes → Option Bytes

/-- One user of the file: the node of its name, the name, its fields, and the
    password if there is one. -/
structure UserEntry where
  key : Yaml
  name : Bytes
  fields : Yaml.Fields
  password : Option Bytes

/-- `it->first`, `it->second` and `userNode["password"]` as texts; `none` when
    one of the conversions throws. -/
def readEntry (yaml : YamlLibrary) (pair : Yaml × Yaml) : Option UserEntry :=
  match pair.1.asString yaml, pair.2.asMap with
  | some name, some fields =>
      match Yaml.find (ascii "password") fields with
      | none => some ⟨pair.1, name, fields, none⟩
      | some value =>
          (value.asString yaml).map fun password => ⟨pair.1, name, fields, some password⟩
  | _, _ => none

/-- The entry as it stands in the tree. -/
def UserEntry.node (entry : UserEntry) : Yaml × Yaml := (entry.key, .map entry.fields)

/-- `userNode["password"] = hashed` -/
def UserEntry.setPassword (hashed : Bytes) (entry : UserEntry) : UserEntry :=
  { entry with
    fields := Yaml.assign (ascii "password") (.scalar hashed) entry.fields
    password := some hashed }

/-- The users section of a document; `none` when there is none or a subscript
    throws. -/
def usersSection (root : Yaml) : Option Yaml :=
  root.asMap.bind (Yaml.find (ascii "users"))

/-- The document with these pairs in its users section. -/
def withUsers (pairs : Yaml.Fields) (root : Yaml) : Yaml :=
  match root.asMap with
  | none => root
  | some fields => .map (Yaml.assign (ascii "users") (.map pairs) fields)

namespace AuthManager

section Load

variable (yaml : YamlLibrary) (ssl : OpenSsl) (salts : Nat → Option Salt)

/-- The first pass: hashed passwords are stored, plaintext passwords replaced
    in the tree. Returns the users, and the new pairs with the number of
    migrated passwords unless an exception was thrown. `salts` are what the
    calls of `RAND_bytes` give. -/
def firstPass (migrated : Nat) (users : Users) :
    Yaml.Fields → Users × Option (Yaml.Fields × Nat)
  | [] => (users, some ([], migrated))
  | pair :: rest =>
      match readEntry yaml pair with
      | none => (users, none)
      | some entry =>
          let next (migrated : Nat) (users : Users) (entry : UserEntry) :=
            (firstPass migrated users rest).map id
              (Option.map fun result => (entry.node :: result.1, result.2))
          match entry.password with
          | none => next migrated users entry
          | some password =>
              if PasswordHash.isHashed password then
                next migrated (Function.update users entry.name (some password)) entry
              else
                match PasswordHash.hash ssl (salts migrated) password with
                | none => (users, none)
                | some hashed => next (migrated + 1) users (entry.setPassword hashed)

/-- The second pass stores every password; after a migration it refuses one
    that is not hashed. -/
def storePass (checks : Bool) (users : Users) : Yaml.Fields → Bool × Users
  | [] => (true, users)
  | pair :: rest =>
      match readEntry yaml pair with
      | none => (false, users)
      | some entry =>
          match entry.password with
          | none => storePass checks users rest
          | some password =>
              if checks && !PasswordHash.isHashed password then (false, users)
              else storePass checks (Function.update users entry.name (some password)) rest

def removeTemp (tempPath : Bytes) : AuthProg Bool := .step (.remove tempPath) fun _ => .pure false

/-- Write the migrated document beside the users file and rename it over it. -/
def persist (path : Bytes) (document : Bytes) : AuthProg Bool :=
  let tempPath := path ++ ascii ".tmp"
  .step (.createFile tempPath) fun created =>
    if !created then .pure false
    else
      .step (.writeFile tempPath document) fun written =>
        .step (.closeHandle tempPath) fun _ =>
          if written ≠ some document.length then removeTemp tempPath
          else
            .step (.rename tempPath path) fun renamed =>
              if renamed then .pure true else removeTemp tempPath

def loadFromFile (path : Bytes) (users : Users) : AuthProg (Bool × Users) :=
  .step (.readFile path) fun
    | none => .pure (false, users)
    | some raw =>
        match yaml.load raw with
        | none => .pure (false, users)
        | some root =>
            match (usersSection root).bind Yaml.pairs with
            | none => .pure (false, users)
            | some pairs =>
                match firstPass yaml ssl salts 0 users pairs with
                | (users, none) => .pure (false, users)
                | (users, some (pairs, migrated)) =>
                    if migrated > 0 then
                      (persist path (yaml.emit (withUsers pairs root))).map fun persisted =>
                        if persisted then storePass yaml true users pairs else (false, users)
                    else .pure (storePass yaml false users pairs)

end Load

/-- `none` when the verification throws. -/
def validate (ssl : OpenSsl) (users : Users) (user pass : Bytes) : Option Bool :=
  match users user with
  | none => some false
  | some hash =>
      if !PasswordHash.isHashed hash then some false else PasswordHash.verify ssl pass hash

/-- The user name and password of a decoded PLAIN response. -/
def plainCredentials (decoded : Bytes) : Option (Bytes × Bytes) :=
  (Bytes.cut 0 decoded).bind fun parts => Bytes.cut 0 parts.2

/-- The answer, with the user name if it was set. `base64Decode` is the server's
    own decoder. -/
def authenticateSmtp (ssl : OpenSsl) (base64Decode : Bytes → Bytes) (users : Users)
    (args : Bytes) : Option (Bool × Option Bytes) :=
  if args.take 6 ≠ ascii "PLAIN " then some (false, none)
  else
    match plainCredentials (base64Decode (args.drop 6)) with
    | none => some (false, none)
    | some (user, pass) => (validate ssl users user pass).map fun answer => (answer, some user)

end AuthManager

end EmailServer.Auth
