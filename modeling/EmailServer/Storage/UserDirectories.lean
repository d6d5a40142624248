import EmailServer.Core.InputValidator
import EmailServer.Imap.FlagsIndex
import EmailServer.Storage.MailStore

/-! # The directories of the users

The mail store and the flags index both join the name of a user to the root directory, and
both keep what they have of the user in the directory that comes out. The validator lets the
names of the two steps through, `.` and `..`; and with the first of them the entries of a user
directory become directories of other users.
-/

namespace EmailServer.Storage

open FsPath (IsName AtOrBelow StrictlyInside dot dotDot)
open Core.InputValidator

/-- The mailbox directory and the flags file of a user. -/
def userPaths (syn : PathSyntax) (rootDir user : Bytes) : List FsPath :=
  [MailStore.makeUserInboxDir syn rootDir user, Imap.FlagsIndex.mailboxFlagsPath syn rootDir user]

/-- The root directory. -/
def rootPath (syn : PathSyntax) (rootDir : Bytes) : FsPath := syn.directory (syn.parse rootDir)

/-- All that is kept of `user` lies strictly inside the root, in a subdirectory of it in which
    nothing is kept of any other user. -/
def OwnDirectory (syn : PathSyntax) (rootDir user : Bytes) : Prop :=
  ∃ name, IsName name ∧
    (∀ p ∈ userPaths syn rootDir user,
      StrictlyInside (rootPath syn rootDir) p ∧ AtOrBelow ((rootPath syn rootDir).child name) p) ∧
    ∀ other, isValidUsername other = true → other ≠ user → ∀ p ∈ userPaths syn rootDir other,
      ¬ AtOrBelow ((rootPath syn rootDir).child name) p

/-- The entries of a user directory. -/
def entries : List Bytes := [ascii "INBOX", ascii "flags.txt"]

section Entries

variable {syn : PathSyntax} {rootDir user name entry : Bytes} {top : FsPath}

theorem entries_isName (member : entry ∈ entries) : IsName entry := by
  have all : ∀ entry ∈ entries, entry ≠ dot ∧ entry ≠ dotDot := by decide
  exact all entry member

theorem userPaths_eq (names : syn.Names user) : userPaths syn rootDir user =
    entries.map fun entry => ((rootPath syn rootDir).child user).child entry := by
  have parts : ((rootPath syn rootDir).child user).parts ≠ [] := by simp [FsPath.child]
  rw [userPaths, MailStore.makeUserInboxDir, Imap.FlagsIndex.mailboxFlagsPath,
    syn.append_name _ names, ← rootPath, syn.append_plain parts (by decide) (by decide),
    syn.append_plain parts (by decide) (by decide)]
  rfl

theorem atOrBelow_entry (isName : IsName name) (isEntry : IsName entry) :
    AtOrBelow (top.child name) ((top.child user).child entry) ↔
      ∃ rest, (top.child user).normal.parts ++ [entry] = top.normal.parts ++ name :: rest ∧
        rest.head? ≠ some dotDot := by
  rw [AtOrBelow, FsPath.child_normal _ isEntry, FsPath.child_normal _ isName]
  simp [FsPath.child, FsPath.normal]

theorem atOrBelow_name (isUser : IsName user) (isName : IsName name) (isEntry : IsName entry) :
    AtOrBelow (top.child name) ((top.child user).child entry) ↔ user = name := by
  rw [atOrBelow_entry isName isEntry, FsPath.child_normal _ isUser]
  simp only [FsPath.child, List.append_assoc, List.singleton_append, List.append_cancel_left_eq,
    List.cons.injEq]
  constructor
  · rintro ⟨rest, ⟨same, -⟩, -⟩
    exact same
  · rintro rfl
    exact ⟨[entry], ⟨rfl, rfl⟩, by simpa using isEntry.2⟩

theorem atOrBelow_step (step : ¬ IsName user) (isName : IsName name) (isEntry : IsName entry)
    (below : AtOrBelow (top.child name) ((top.child user).child entry)) : entry = name := by
  obtain ⟨rest, same, -⟩ := (atOrBelow_entry isName isEntry).mp below
  rcases top.child_step step with up | ⟨more, above⟩
  · rw [up, List.append_assoc, List.append_cancel_left_eq] at same
    exact absurd (List.cons.inj same).1.symm isName.2
  · rw [← above, List.append_assoc, List.append_cancel_left_eq] at same
    cases more with
    | nil => exact (List.cons.inj same).1
    | cons => simp at same

theorem dot_below (isEntry : IsName entry) :
    AtOrBelow (top.child entry) ((top.child dot).child entry) := by
  rw [atOrBelow_entry isEntry isEntry]
  exact ⟨[], by simp [FsPath.child, FsPath.normal, FsPath.normalParts, FsPath.walk], by simp⟩

end Entries

/-- The validator lets nothing through that separates. -/
theorem username_names (format : PathSyntax.Format) {user : Bytes}
    (valid : isValidUsername user = true) : format.toSyntax.Names user := by
  obtain ⟨nonempty, -, chars⟩ := isValidUsername_iff.mp valid
  apply PathSyntax.format_names format nonempty
  intro c member
  have other : ∀ d, usernameChar d = false → c ≠ d := by
    rintro d foreign rfl
    rw [chars c member] at foreign
    cases foreign
  exact ⟨other 47 (by decide), other 92 (by decide), other 58 (by decide)⟩

/-- A valid name has a directory of its own if and only if it is neither a step nor the name of
    an entry. -/
theorem ownDirectory_iff (format : PathSyntax.Format) {rootDir user : Bytes}
    (valid : isValidUsername user = true) : OwnDirectory format.toSyntax rootDir user ↔
      user ∉ [ascii ".", ascii "..", ascii "INBOX", ascii "flags.txt"] := by
  have reserved : user ∉ [ascii ".", ascii "..", ascii "INBOX", ascii "flags.txt"] ↔
      IsName user ∧ user ∉ entries := by
    simp [IsName, entries, dot, dotDot, and_assoc]
  rw [reserved, OwnDirectory]
  generalize rooted : rootPath format.toSyntax rootDir = root
  have paths : ∀ user, isValidUsername user = true →
      ∀ p, p ∈ userPaths format.toSyntax rootDir user ↔
        ∃ entry ∈ entries, (root.child user).child entry = p := by
    intro user valid p
    rw [userPaths_eq (username_names format valid), rooted, List.mem_map]
  constructor
  · rintro ⟨name, isName, own, alone⟩
    have below : ∀ entry ∈ entries, AtOrBelow (root.child name) ((root.child user).child entry) :=
      fun entry member => (own _ ((paths user valid _).mpr ⟨entry, member, rfl⟩)).2
    have isUser : IsName user := by
      by_contra step
      -- both entries would have the same name
      have same : ∀ entry ∈ entries, entry = name := fun entry member =>
        atOrBelow_step step isName (entries_isName member) (below entry member)
      have inbox := same (ascii "INBOX") (by decide)
      have flags := same (ascii "flags.txt") (by decide)
      exact absurd (inbox.trans flags.symm) (by decide)
    refine ⟨isUser, fun member => ?_⟩
    obtain rfl := (atOrBelow_name isUser isName (entries_isName member)).mp (below user member)
    have other : dot ≠ user := Ne.symm isUser.1
    exact alone dot (by decide) other _ ((paths dot (by decide) _).mpr ⟨user, member, rfl⟩)
      (dot_below isUser)
  · rintro ⟨isUser, ordinary⟩
    refine ⟨user, isUser, fun p member => ?_, fun other valid' different p member below => ?_⟩
    · obtain ⟨entry, isEntry, rfl⟩ := (paths user valid p).mp member
      have inside := (AtOrBelow.refl root).child isUser
      exact ⟨inside.1.child (entries_isName isEntry), (atOrBelow_name isUser isUser
        (entries_isName isEntry)).mpr rfl⟩
    · obtain ⟨entry, isEntry, rfl⟩ := (paths other valid' p).mp member
      by_cases isOther : IsName other
      · exact different ((atOrBelow_name isOther isUser (entries_isName isEntry)).mp below)
      · exact ordinary (atOrBelow_step isOther isUser (entries_isName isEntry) below ▸ isEntry)

theorem ownDirectory_bob : OwnDirectory PathSyntax.windows (ascii "data/mail") (ascii "bob") :=
  (ownDirectory_iff .windows (by decide)).mpr (by decide)

/-- The user `..` has his mail beside the root directory, and the user `.` in the directory of
    the user `INBOX`. -/
theorem steps_escape :
    (isValidUsername (ascii "..") = true ∧
      ∀ p ∈ userPaths PathSyntax.windows (ascii "data/mail") (ascii ".."),
        ¬ StrictlyInside (rootPath PathSyntax.windows (ascii "data/mail")) p) ∧
    isValidUsername (ascii ".") = true ∧ isValidUsername (ascii "INBOX") = true ∧
      (MailStore.makeUserInboxDir PathSyntax.windows (ascii "data/mail") (ascii ".")).normal =
        (rootPath PathSyntax.windows (ascii "data/mail")).child (ascii "INBOX") := by
  decide

end EmailServer.Storage
