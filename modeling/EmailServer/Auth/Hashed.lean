import Mathlib.Logic.Relation
import EmailServer.Auth.UsersFile

/-! # No plaintext in memory

Three loops write to `users_`, and a load can end between any two of their
steps. The first loop writes hashes only, the second refuses everything else,
and the third runs only if the first has found nothing else.
-/

namespace EmailServer.Auth

/-- Every stored password is a hash. -/
def Hashed (users : Users) : Prop :=
  ∀ name hash, users name = some hash → PasswordHash.isHashed hash = true

/-- A call of `loadFromFile`, whatever the file contains, fails or changes into. -/
def Loads (users users' : Users) : Prop :=
  ∃ yaml ssl salts path ok,
    (AuthManager.loadFromFile yaml ssl salts path users).Returns (ok, users')

/-- What a manager can hold after any number of calls. -/
def Loaded (users : Users) : Prop := Relation.ReflTransGen Loads (fun _ => none) users

/-- `verify` comes to compare the password with the stored text itself. -/
def ComparesPlaintext (plaintext hash : Bytes) : Prop :=
  plaintext ≠ [] ∧ hash ≠ [] ∧ hash.take 15 ≠ PasswordHash.header ∧
    PasswordHash.isHashed hash = false

theorem ComparesPlaintext.verify {ssl : OpenSsl} {plaintext hash : Bytes}
    (compares : ComparesPlaintext plaintext hash) :
    PasswordHash.verify ssl plaintext hash = some (plaintext == hash) := by
  obtain ⟨nonempty, stored, foreign_, plain⟩ := compares
  simp [PasswordHash.verify, nonempty, stored, foreign_, plain]

section Passes

variable {yaml : YamlLibrary} {ssl : OpenSsl} {salts : Nat → Option Salt} {pairs : Yaml.Fields}
  {users users' : Users} {creds : List Credential}

theorem Hashed.update (kept : Hashed users) {name password : Bytes}
    (hashed : PasswordHash.isHashed password = true) :
    Hashed (Function.update users name (some password)) := by
  intro other hash stored
  by_cases same : other = name
  · subst same
    obtain rfl : password = hash := by simpa using stored
    exact hashed
  · exact kept other hash (by simpa [same] using stored)

theorem firstPass_keeps (migrated : Nat) (kept : Hashed users) :
    Hashed (AuthManager.firstPass yaml ssl salts migrated users pairs).1 := by
  induction pairs generalizing migrated users with
  | nil => exact kept
  | cons pair rest ih =>
      unfold AuthManager.firstPass
      split
      · exact kept
      dsimp only
      split
      · exact ih migrated kept
      · split
        · rename_i hashed
          exact ih migrated (kept.update hashed)
        · split
          · exact kept
          · exact ih (migrated + 1) kept

theorem storePass_keeps (kept : Hashed users) :
    Hashed (AuthManager.storePass yaml true users pairs).2 := by
  induction pairs generalizing users with
  | nil => exact kept
  | cons pair rest ih =>
      unfold AuthManager.storePass
      split
      · exact kept
      · split
        · exact ih kept
        · split
          · exact kept
          · rename_i checked
            exact ih (kept.update (by simpa using checked))

/-- The third loop runs when the first one has migrated nothing, and so finds
    nothing but hashes. -/
theorem storePass_unmigrated {before : Users} {pairs' : Yaml.Fields} (kept : Hashed users)
    (done : AuthManager.firstPass yaml ssl salts 0 before pairs = (users, some (pairs', 0))) :
    Hashed (AuthManager.storePass yaml false users pairs').2 := by
  obtain ⟨creds, creds', -, read, migrates, -, counted⟩ := firstPass_spec done
  have hashed : ∀ user ∈ creds, isPlaintext user = false := by
    have nothing : creds.countP isPlaintext = 0 := by omega
    simpa using List.countP_eq_zero.mp nothing
  obtain rfl := migrates_hashed migrates hashed
  rw [storePass_eq read]
  intro name hash stored
  have stored : (latest (passwordOf name) creds').or (users name) = some hash := stored
  cases last : latest (passwordOf name) creds' with
  | none =>
      rw [last] at stored
      exact kept name hash stored
  | some password =>
      rw [last] at stored
      obtain rfl : password = hash := by simpa using stored
      obtain ⟨⟨other, written⟩, member, same⟩ := latest_mem last
      have plain := hashed _ member
      unfold passwordOf at same
      split at same
      · subst same
        simpa [isPlaintext] using plain
      · cases same

/-- Whatever a load ends with, it has stored hashes only. -/
theorem loadFromFile_keeps {path : Bytes} {ok : Bool} (kept : Hashed users)
    (returns : (AuthManager.loadFromFile yaml ssl salts path users).Returns (ok, users')) :
    Hashed users' := by
  obtain ⟨raw, returns⟩ := returns
  cases raw with
  | none =>
      cases returns
      exact kept
  | some raw =>
  dsimp only at returns
  split at returns
  · cases returns
    exact kept
  split at returns
  · cases returns
    exact kept
  rename_i root _ pairs _
  have first := @firstPass_keeps yaml ssl salts pairs users 0 kept
  split at returns
  · rename_i users₁ passed
    cases returns
    rwa [passed] at first
  rename_i users₁ pairs' migrated passed
  rw [passed] at first
  split at returns
  · obtain ⟨persisted, -, returns⟩ := Prog.returns_bind.mp returns
    cases persisted with
    | false =>
        cases returns
        exact first
    | true =>
        have same : (ok, users') = AuthManager.storePass yaml true users₁ pairs' := returns
        rw [show users' = _ from congrArg Prod.snd same]
        exact storePass_keeps first
  · rename_i migratedNone
    obtain rfl : migrated = 0 := by omega
    have same : (ok, users') = AuthManager.storePass yaml false users₁ pairs' := returns
    rw [show users' = _ from congrArg Prod.snd same]
    exact storePass_unmigrated first passed

end Passes

/-- After any sequence of loads, whether they returned true or false, the manager
    holds nothing but hashes, and no password is compared in plaintext. -/
theorem loaded_hashed {users : Users} (loaded : Loaded users) :
    Hashed users ∧ ∀ user pass hash, users user = some hash → ¬ ComparesPlaintext pass hash := by
  have hashed : Hashed users := by
    induction loaded with
    | refl =>
        intro name hash stored
        cases stored
    | tail _ loads ih =>
        obtain ⟨yaml, ssl, salts, path, ok, returns⟩ := loads
        exact loadFromFile_keeps ih returns
  refine ⟨hashed, ?_⟩
  rintro user pass hash stored ⟨-, -, -, plain⟩
  have isHash := hashed user hash stored
  rw [plain] at isHash
  cases isHash

/-- Alice's hash and Bob's migrated password. -/
theorem loaded_hashed_mixed : Hashed mixedStored := by
  obtain ⟨t, run⟩ := mixed_loaded
  exact (loaded_hashed (.single ⟨_, _, _, _, true, run.returns⟩)).1

end EmailServer.Auth
