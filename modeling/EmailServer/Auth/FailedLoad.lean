import EmailServer.Auth.UsersFile

/-! # Loads that fail

A load stores hashes while it reads the file, and again after it has renamed the migrated
document over it. So a load that fails can leave both changed: the users by the hashes
before the place where it gave up, and the file when it gave up after the rename.
-/

namespace EmailServer.Auth

def UserEntry.user (entry : UserEntry) : Credential := (entry.name, entry.password)

/-- The entries of a section up to the first that cannot be read. -/
def readable (yaml : YamlLibrary) : Yaml.Fields → List UserEntry
  | [] => []
  | pair :: rest =>
      match readEntry yaml pair with
      | none => []
      | some entry => entry :: readable yaml rest

/-- The entries with hashes for the plaintext passwords, up to the first that cannot be
    hashed, when `used` salts have been used before. -/
def rehashed (ssl : OpenSsl) (salts : Nat → Option Salt) (used : Nat) :
    List UserEntry → List UserEntry
  | [] => []
  | entry :: rest =>
      if isPlaintext entry.user then
        match PasswordHash.hash ssl (salts used) (entry.password.getD []) with
        | none => []
        | some hashed => entry.setPassword hashed :: rehashed ssl salts (used + 1) rest
      else entry :: rehashed ssl salts used rest

section Sections

variable (yaml : YamlLibrary) (ssl : OpenSsl) (salts : Nat → Option Salt) (pairs : Yaml.Fields)

/-- The section after the migration, as far as it comes. -/
def migratedEntries : List UserEntry := rehashed ssl salts 0 (readable yaml pairs)

/-- The migration does not come to the end of the section. -/
def Stops : Prop := (migratedEntries yaml ssl salts pairs).length < pairs.length

def HasPlaintext : Prop := ∃ entry ∈ readable yaml pairs, isPlaintext entry.user = true

def HasEmpty : Prop := ∃ entry ∈ readable yaml pairs, entry.password = some []

/-- The hashes of the file that the migration comes by. -/
def hashesBefore : List Credential :=
  ((readable yaml pairs).take (migratedEntries yaml ssl salts pairs).length).map fun entry =>
    hashedOnly entry.user

/-- The passwords of the migrated section up to the first that is still not a hash. -/
def hashesAfter : List Credential :=
  ((migratedEntries yaml ssl salts pairs).takeWhile fun entry => !isPlaintext entry.user).map
    UserEntry.user

/-- The migrated document. -/
def migratedDocument (root : Yaml) : Bytes :=
  yaml.emit (withUsers ((migratedEntries yaml ssl salts pairs).map UserEntry.node) root)

end Sections

section Passes

variable {yaml : YamlLibrary} {ssl : OpenSsl} {salts : Nat → Option Salt} {pairs : Yaml.Fields}
  {users : Users} {entries : List UserEntry}

end Passes

/-! ## The file -/

section File

variable {W : Platform Bytes Unit} {path document : Bytes} {s t : Disk Bytes}

/-- The temporary file may stay unwritten or unrenamed. -/
def MayAbandon (W : Platform Bytes Unit) (path document : Bytes) : Prop :=
  W.fails (.writeFile (path ++ ascii ".tmp") document) ∨
    W.fails (.rename (path ++ ascii ".tmp") path)

/-- The document may stay unwritten. -/
def MayNotPersist (W : Platform Bytes Unit) (path document : Bytes) : Prop :=
  W.fails (.createFile (path ++ ascii ".tmp")) ∨ MayAbandon W path document

end File

/-! ## Loads -/

section Outcomes

variable (W : Platform Bytes Unit) (yaml : YamlLibrary) (ssl : OpenSsl) (salts : Nat → Option Salt)
  (path : Bytes) (s : Disk Bytes) (users : Users) (root : Yaml) (pairs : Yaml.Fields)

/-- The ways to give up leave the users and the file as they were. -/
structure Harmless : Prop where
  stored : Stops yaml ssl salts pairs ∨
      HasPlaintext yaml pairs ∧ MayNotPersist W path (migratedDocument yaml ssl salts pairs root) →
    overlay (hashesBefore yaml ssl salts pairs) users = users
  beside : ¬ Stops yaml ssl salts pairs → HasPlaintext yaml pairs →
    MayAbandon W path (migratedDocument yaml ssl salts pairs root) →
    W.locate (path ++ ascii ".tmp") ≠ W.locate path
  refused : ¬ Stops yaml ssl salts pairs → HasEmpty yaml pairs →
    overlay (hashesAfter yaml ssl salts pairs) (overlay (hashesBefore yaml ssl salts pairs) users) =
        users ∧
      s.contents (W.locate path) = some (migratedDocument yaml ssl salts pairs root)

end Outcomes

section Loads

variable {W : Platform Bytes Unit} {yaml : YamlLibrary} {ssl : OpenSsl} {salts : Nat → Option Salt}
  {path raw : Bytes} {s t : Disk Bytes} {users users' : Users} {root : Yaml} {pairs : Yaml.Fields}

theorem HasEmpty.plaintext (empty : HasEmpty yaml pairs) : HasPlaintext yaml pairs := by
  obtain ⟨entry, member, same⟩ := empty
  refine ⟨entry, member, ?_⟩
  rw [isPlaintext, UserEntry.user, same]
  rfl

end Loads

/-! ## A file that cannot be migrated -/

end EmailServer.Auth
