import EmailServer.Auth.Migration

/-! # Loading the users file twice

A load that migrates passwords writes the migrated document over the users file.
Loading that file finds hashes only, so it writes nothing and stores what the
first load stored.
-/

namespace EmailServer.Auth

section Load

variable {yaml : YamlLibrary} {ssl : OpenSsl} {salts : Nat → Option Salt}
  {W : Platform Bytes Unit} {path raw : Bytes} {users users' : Users} {s t : Disk Bytes}
  {creds : List Credential}

theorem persist_runs (W : Platform Bytes Unit) (path document : Bytes) (s : Disk Bytes) :
    ∃ t, (AuthManager.persist path document).Runs W.Effect s true t := by
  let temp := W.locate (path ++ ascii ".tmp")
  let filled := (s.put temp ⟨[], false, s.now⟩).overwrite temp (document.take document.length)
  have written : filled.files temp = some ⟨document, false, s.now⟩ := by
    simp [filled, Disk.overwrite]
  refine ⟨filled.move temp (W.locate path) ⟨document, false, s.now⟩, true, _, rfl,
    some document.length, filled, ⟨le_refl _, .inl rfl, rfl⟩, (), filled, rfl, ?_⟩
  rw [if_neg (by simp)]
  exact ⟨true, _, ⟨_, written, rfl⟩, rfl, rfl⟩

theorem validate_migrated (inverse : ∀ data, ssl.base64Decode (Base64.encode data) = data)
    {name password hashed : Bytes} (plain : PasswordHash.isHashed password = false)
    (nonempty : password ≠ []) (migrated : Migrates ssl (name, some password) (name, some hashed))
    (stored : users name = some hashed) : AuthManager.validate ssl users name password = some true := by
  cases migrated with
  | hashed _ isHash => simp [plain] at isHash
  | empty => exact absurd rfl nonempty
  | plaintext _ _ _ derived =>
      simp [AuthManager.validate, stored, PasswordHash.isHashed_format,
        PasswordHash.verify_format inverse nonempty, derived]

end Load

/-! ## A file with both kinds of password -/

def alicesHash : Bytes :=
  ascii "$pbkdf2-sha256$100000$O7UTcnf9LD79n4HyEZzGIQ==$ECljjK8aXfo8uu8UZ5QjgUXl5a29ei78B1OkbcVOcP0="

def bobsSalt : Salt := #v[0, 1, 2, 3, 4, 5, 6, 7, 8, 9, 10, 11, 12, 13, 14, 15]

/-- The key of `secret` with that salt. -/
def bobsKey : Key := #v[159, 185, 221, 60, 142, 41, 68, 54, 107, 120, 140, 126, 121, 90, 90, 99,
  80, 213, 136, 69, 178, 163, 210, 26, 214, 95, 7, 181, 81, 129, 248, 55]

def bobsHash : Bytes := PasswordHash.format bobsSalt bobsKey

def mixedSsl : OpenSsl where
  derive password salt iterations :=
    if password = ascii "secret" ∧ salt = bobsSalt.toList ∧ iterations = 100000 then some bobsKey
    else none
  base64Decode text := (Base64.decode text).getD []

def mixedFile (bobsPassword : Bytes) : Bytes :=
  ascii "users:\n  alice:\n    password: " ++ alicesHash ++ ascii "\n  bob:\n    password: " ++
    bobsPassword

def mixedUsers (bobsPassword : Bytes) : Yaml.Fields :=
  [(.scalar (ascii "alice"), .map [(.scalar (ascii "password"), .scalar alicesHash)]),
    (.scalar (ascii "bob"), .map [(.scalar (ascii "password"), .scalar bobsPassword)])]

def mixedRoot (bobsPassword : Bytes) : Yaml :=
  .map [(.scalar (ascii "users"), .map (mixedUsers bobsPassword))]

def mixedYaml : YamlLibrary where
  load text :=
    if text = mixedFile (ascii "secret") then some (mixedRoot (ascii "secret"))
    else if text = mixedFile bobsHash then some (mixedRoot bobsHash)
    else none
  emit _ := mixedFile bobsHash
  nullText := some (ascii "null")

def usersDisk : Disk Bytes :=
  .holding (fun path => if path = ascii "config/users.yml" then some (mixedFile (ascii "secret"))
    else none) (fun _ => true) 0

/-- Nothing fails, and no path is a link. -/
def usersPlatform : Platform Bytes Unit where
  locate := id
  chain _ := []
  fails _ := False
  lists _ _ _ := False
  draws _ _ := False

theorem usersDisk_holds : usersDisk.contents (usersPlatform.locate (ascii "config/users.yml")) =
    some (mixedFile (ascii "secret")) := by
  simp [usersDisk, Disk.contents, Disk.holding, usersPlatform]

theorem mixed_inverse (data : Bytes) : mixedSsl.base64Decode (Base64.encode data) = data := by
  simp [mixedSsl, Base64.decode_encode]

theorem alice_hashed : PasswordHash.isHashed alicesHash = true := by decide +kernel

theorem secret_plain : PasswordHash.isHashed (ascii "secret") = false := by decide +kernel

theorem mixed_load : mixedYaml.load (mixedFile (ascii "secret")) = some (mixedRoot (ascii "secret")) := by
  simp [mixedYaml]

theorem mixed_pairs (bobsPassword : Bytes) :
    (usersSection (mixedRoot bobsPassword)).bind Yaml.pairs = some (mixedUsers bobsPassword) := by
  simp [mixedRoot, usersSection, Yaml.find, Yaml.isKey, Yaml.pairs]

theorem readEntry_user (yaml : YamlLibrary) (name password : Bytes) :
    readEntry yaml (.scalar name, .map [(.scalar (ascii "password"), .scalar password)]) =
      some ⟨.scalar name, name, [(.scalar (ascii "password"), .scalar password)], some password⟩ := by
  simp [readEntry, Yaml.find, Yaml.isKey]

theorem mixed_firstPass (users : Users) :
    AuthManager.firstPass mixedYaml mixedSsl (fun _ => some bobsSalt) 0 users
        (mixedUsers (ascii "secret")) =
      (Function.update users (ascii "alice") (some alicesHash), some (mixedUsers bobsHash, 1)) := by
  have printed : PasswordHash.hash mixedSsl (some bobsSalt) (ascii "secret") = some bobsHash := by
    have nonempty : ascii "secret" ≠ [] := by decide
    simp [PasswordHash.hash, PasswordHash.ITERATIONS, nonempty, mixedSsl, bobsHash]
  simp [AuthManager.firstPass, mixedUsers, readEntry_user, alice_hashed, secret_plain, printed,
    UserEntry.node, UserEntry.setPassword, Yaml.assign, Yaml.isKey]

theorem mixed_withUsers : withUsers (mixedUsers bobsHash) (mixedRoot (ascii "secret")) =
    mixedRoot bobsHash := by
  simp [withUsers, mixedRoot, Yaml.assign, Yaml.isKey]

/-- The users after the example file has been loaded. -/
def mixedStored : Users :=
  overlay [(ascii "alice", some alicesHash), (ascii "bob", some bobsHash)] fun _ => none

theorem mixed_storePass : AuthManager.storePass mixedYaml true
    (Function.update (fun _ => none) (ascii "alice") (some alicesHash)) (mixedUsers bobsHash) =
      (true, mixedStored) := by
  have bob_hashed : PasswordHash.isHashed bobsHash = true := PasswordHash.isHashed_format _ _
  simp [AuthManager.storePass, mixedUsers, readEntry_user, alice_hashed, bob_hashed, mixedStored,
    overlay_stored, overlay_nil]

theorem mixed_loaded : ∃ t,
    (AuthManager.loadFromFile mixedYaml mixedSsl (fun _ => some bobsSalt)
      (ascii "config/users.yml") fun _ => none).Runs usersPlatform.Effect usersDisk
        (true, mixedStored) t := by
  obtain ⟨t, persisted⟩ := persist_runs usersPlatform (ascii "config/users.yml")
    (mixedFile bobsHash) usersDisk
  refine ⟨t, some (mixedFile (ascii "secret")), usersDisk,
    (Platform.effect_readFile id usersDisk_holds).mpr ⟨rfl, rfl⟩, ?_⟩
  simp only [mixed_load, mixed_pairs, mixed_firstPass, mixed_withUsers, gt_iff_lt, Nat.one_pos,
    if_true]
  exact Prog.runs_map.mpr ⟨true, persisted, by rw [if_pos rfl, mixed_storePass]⟩

end EmailServer.Auth
