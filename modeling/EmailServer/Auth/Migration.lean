import EmailServer.Library.History
import EmailServer.Auth.AuthManager

/-! # Loading and migrating the users file

What the users section of a file says, entry by entry, and what the two passes
make of it: every password of the file is stored as it is when it is a hash, and
as a hash it verifies against when it is not.
-/

namespace EmailServer.Auth

/-- A user of the file and the password, if there is one. -/
abbrev Credential := Bytes × Option Bytes

/-- The users of a section; `none` when a conversion throws. -/
def credentials (yaml : YamlLibrary) : Yaml.Fields → Option (List Credential)
  | [] => some []
  | pair :: rest =>
      match readEntry yaml pair, credentials yaml rest with
      | some entry, some others => some ((entry.name, entry.password) :: others)
      | _, _ => none

def passwordOf (name : Bytes) (user : Credential) : Option Bytes :=
  if user.1 = name then user.2 else none

/-- The map after the passwords have been stored one after the other. -/
def overlay (creds : List Credential) (users : Users) : Users := fun name =>
  (latest (passwordOf name) creds).or (users name)

/-- Only passwords that are hashes. -/
def hashedOnly (user : Credential) : Credential := (user.1, user.2.filter PasswordHash.isHashed)

def isPlaintext (user : Credential) : Bool := user.2.any fun password => !PasswordHash.isHashed password

section Overlay

variable {creds : List Credential} {users : Users} {name password : Bytes}

theorem overlay_nil : overlay [] users = users := rfl

theorem overlay_missing : overlay ((name, none) :: creds) users = overlay creds users := by
  funext other
  simp [overlay, latest_cons, passwordOf]

theorem overlay_stored : overlay ((name, some password) :: creds) users =
    overlay creds (Function.update users name (some password)) := by
  funext other
  simp only [overlay, latest_cons, passwordOf, Option.or_assoc]
  by_cases same : name = other
  · subst same
    simp
  · simp [same, Function.update_of_ne (Ne.symm same)]

end Overlay

/-- What becomes of a user of the file. -/
inductive Migrates (ssl : OpenSsl) : Credential → Credential → Prop
  | missing (name : Bytes) : Migrates ssl (name, none) (name, none)
  | hashed (name : Bytes) {password : Bytes} : PasswordHash.isHashed password = true →
      Migrates ssl (name, some password) (name, some password)
  | plaintext (name : Bytes) {password : Bytes} {salt : Salt} {key : Key} :
      PasswordHash.isHashed password = false → password ≠ [] →
      ssl.derive password salt.toList PasswordHash.ITERATIONS = some key →
      Migrates ssl (name, some password) (name, some (PasswordHash.format salt key))
  | empty (name : Bytes) : Migrates ssl (name, some []) (name, some [])

theorem hash_migrates {ssl : OpenSsl} {salt : Option Salt} {password hashed : Bytes} (name : Bytes)
    (plain : PasswordHash.isHashed password = false)
    (printed : PasswordHash.hash ssl salt password = some hashed) :
    Migrates ssl (name, some password) (name, some hashed) := by
  unfold PasswordHash.hash at printed
  split at printed
  · rename_i empty
    cases printed
    rw [empty]
    exact .empty name
  · rename_i nonempty
    split at printed
    · cases printed
    · obtain ⟨key, derived, rfl⟩ := Option.map_eq_some_iff.mp printed
      exact .plaintext name plain nonempty derived

section Passes

variable {yaml : YamlLibrary} {ssl : OpenSsl} {salts : Nat → Option Salt} {pairs : Yaml.Fields}
  {users : Users} {creds : List Credential}

/-! ## Entries of the tree -/

theorem readEntry_some {pair : Yaml × Yaml} {entry : UserEntry}
    (read : readEntry yaml pair = some entry) :
    entry.key.asString yaml = some entry.name ∧
      (Yaml.find (ascii "password") entry.fields).elim (entry.password = none)
        fun value => ∃ password, value.asString yaml = some password ∧
          entry.password = some password := by
  unfold readEntry at read
  split at read
  · rename_i name fields named subscripted
    split at read
    · rename_i absent
      cases read
      exact ⟨named, by simp [absent]⟩
    · rename_i value found
      obtain ⟨password, text, rfl⟩ := Option.map_eq_some_iff.mp read
      exact ⟨named, by simp [found, text]⟩
  · cases read

theorem readEntry_node {pair : Yaml × Yaml} {entry : UserEntry}
    (read : readEntry yaml pair = some entry) : readEntry yaml entry.node = some entry := by
  obtain ⟨named, stored⟩ := readEntry_some read
  obtain ⟨key, name, fields, password⟩ := entry
  simp only at named stored
  simp only [readEntry, UserEntry.node, named, Yaml.asMap_map]
  cases found : Yaml.find (ascii "password") fields with
  | none =>
      rw [found] at stored
      simpa using stored.symm
  | some value =>
      rw [found] at stored
      obtain ⟨text, converted, same⟩ := stored
      simp [converted, same]

theorem readEntry_setPassword {pair : Yaml × Yaml} {entry : UserEntry} (hashed : Bytes)
    (read : readEntry yaml pair = some entry) :
    readEntry yaml (entry.setPassword hashed).node = some (entry.setPassword hashed) := by
  obtain ⟨named, -⟩ := readEntry_some read
  simp [readEntry, UserEntry.node, UserEntry.setPassword, named]

theorem credentials_split {pair : Yaml × Yaml} {rest : Yaml.Fields}
    (read : credentials yaml (pair :: rest) = some creds) :
    ∃ entry others, readEntry yaml pair = some entry ∧ credentials yaml rest = some others ∧
      creds = (entry.name, entry.password) :: others := by
  unfold credentials at read
  split at read
  · rename_i entry others readPair readRest
    exact ⟨entry, others, readPair, readRest, (Option.some.inj read).symm⟩
  · cases read

theorem credentials_cons {pair : Yaml × Yaml} {rest : Yaml.Fields} {entry : UserEntry}
    (read : readEntry yaml pair = some entry) (others : credentials yaml rest = some creds) :
    credentials yaml (pair :: rest) = some ((entry.name, entry.password) :: creds) := by
  simp [credentials, read, others]

/-! ## The passes -/

theorem storePass_eq (read : credentials yaml pairs = some creds) :
    AuthManager.storePass yaml false users pairs = (true, overlay creds users) := by
  induction pairs generalizing users creds with
  | nil =>
      cases read
      rfl
  | cons pair rest ih =>
      obtain ⟨entry, others, readPair, readRest, rfl⟩ := credentials_split read
      unfold AuthManager.storePass
      simp only [readPair]
      cases stored : entry.password with
      | none => simp only [ih readRest, overlay_missing]
      | some password => simp only [Bool.false_and, Bool.false_eq_true, if_false, ih readRest,
          overlay_stored]

/-- What the first pass makes of the users and of the tree. -/
theorem firstPass_spec {migrated migrated' : Nat} {users' : Users} {pairs' : Yaml.Fields}
    (done : AuthManager.firstPass yaml ssl salts migrated users pairs =
      (users', some (pairs', migrated'))) :
    ∃ creds creds', credentials yaml pairs = some creds ∧ credentials yaml pairs' = some creds' ∧
      List.Forall₂ (Migrates ssl) creds creds' ∧
      users' = overlay (creds.map hashedOnly) users ∧
      migrated' = migrated + creds.countP isPlaintext := by
  induction pairs generalizing users migrated pairs' with
  | nil =>
      cases done
      exact ⟨[], [], rfl, rfl, .nil, rfl, rfl⟩
  | cons pair rest ih =>
      unfold AuthManager.firstPass at done
      split at done
      · cases done
      rename_i entry read
      -- the rest of the pass, from the users and the count so far
      have next : ∀ {migrated : Nat} {users : Users} {entry' : UserEntry},
          readEntry yaml entry'.node = some entry' →
          ((AuthManager.firstPass yaml ssl salts migrated users rest).map id
            (Option.map fun result => (entry'.node :: result.1, result.2))) =
              (users', some (pairs', migrated')) →
          ∃ creds creds', credentials yaml rest = some creds ∧
            credentials yaml pairs' = some ((entry'.name, entry'.password) :: creds') ∧
            List.Forall₂ (Migrates ssl) creds creds' ∧
            users' = overlay (creds.map hashedOnly) users ∧
            migrated' = migrated + creds.countP isPlaintext := by
        intro migrated users entry' readNode same
        obtain ⟨sameUsers, sameResult⟩ := Prod.mk.inj same
        obtain ⟨⟨pairsRest, count⟩, rest', sameResult⟩ := Option.map_eq_some_iff.mp sameResult
        cases sameResult
        obtain ⟨creds, creds', readRest, readRest', migrates, stored, counted⟩ :=
          ih (Prod.ext sameUsers rest')
        exact ⟨creds, creds', readRest, credentials_cons readNode readRest', migrates, stored,
          counted⟩
      dsimp only at done
      cases stored : entry.password with
      | none =>
          simp only [stored] at done
          obtain ⟨creds, creds', readRest, readRest', migrates, sameUsers, counted⟩ :=
            next (readEntry_node read) done
          refine ⟨_, _, credentials_cons read readRest, readRest', ?_, ?_, ?_⟩
          · rw [stored]
            exact .cons (.missing _) migrates
          · simpa [stored, hashedOnly, overlay_missing] using sameUsers
          · simpa [stored, isPlaintext] using counted
      | some password =>
          simp only [stored] at done
          split at done
          · rename_i hashed
            obtain ⟨creds, creds', readRest, readRest', migrates, sameUsers, counted⟩ :=
              next (readEntry_node read) done
            refine ⟨_, _, credentials_cons read readRest, readRest', ?_, ?_, ?_⟩
            · rw [stored]
              exact .cons (.hashed _ hashed) migrates
            · simpa [stored, hashedOnly, hashed, Option.filter_some, overlay_stored] using sameUsers
            · simpa [stored, isPlaintext, hashed] using counted
          · rename_i plain
            split at done
            · cases done
            rename_i hashed printed
            obtain ⟨creds, creds', readRest, readRest', migrates, sameUsers, counted⟩ :=
              next (readEntry_setPassword hashed read) done
            refine ⟨_, _, credentials_cons read readRest, readRest', ?_, ?_, ?_⟩
            · rw [stored]
              exact .cons (hash_migrates entry.name (by simpa using plain) printed) migrates
            · simpa [stored, hashedOnly, plain, Option.filter_some, overlay_missing] using sameUsers
            · simp only [stored, isPlaintext, List.countP_cons, Option.any_some, plain, counted]
              simp
              omega

theorem migrates_hashed {creds' : List Credential} (migrates : List.Forall₂ (Migrates ssl) creds creds')
    (hashed : ∀ user ∈ creds, isPlaintext user = false) : creds' = creds := by
  induction migrates with
  | nil => rfl
  | cons head _ ih =>
      rw [ih fun user member => hashed user (.tail _ member)]
      cases head with
      | missing | hashed => rfl
      | plaintext name plain => simpa [isPlaintext, plain] using hashed _ (.head _)
      | empty => rfl

end Passes

end EmailServer.Auth
