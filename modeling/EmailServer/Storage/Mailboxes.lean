import Mathlib.Data.List.Infix
import EmailServer.Library.FileNaming
import EmailServer.Storage.MailStore

/-! # Mailbox files

Where the files of a mailbox lie, whatever the user and the identifier are. Without a NUL in
the way, a message and its temporary file are different files, and the endings of their names
tell the two kinds apart; behind a NUL, both are the file that the path is cut to.
-/

namespace EmailServer.Storage

open FsPath (IsName StrictlyInside AtOrBelow)
open FileName (Simple Ordinary)

variable {syn : PathSyntax}

/-- The directories on the way to `p`, and `p` itself. -/
def prefixes (p : FsPath) : List FsPath :=
  (p.parts.inits.drop 1).map fun parts => { p with parts := parts }

/-- The place of a path inside `dir`. -/
def Scanned (names : Naming syn) (dir p : FsPath) : Prop :=
  ∃ q, q.NulFree ∧ StrictlyInside dir q ∧ names.place q = p

theorem Scanned.locate {names : Naming syn} {dir p : FsPath} (scanned : Scanned names dir p) :
    names.locate p = p := by
  obtain ⟨q, nulFree, -, rfl⟩ := scanned
  exact Naming.locate_place nulFree

/-- The disk under a mail store. A scan reports every file inside the directory, under its
    place. -/
def mailPlatform (names : Naming syn) (fails : FsOp FsPath FsPath → Prop) :
    Platform FsPath FsPath where
  locate := names.locate
  chain p := prefixes (syn.cString p)
  fails := fails
  lists s dir entries := ∀ p, p ∈ entries ↔
    Scanned names (syn.cString dir) p ∧ (s.files p).isSome = true
  draws _ _ := False

/-- A file of the kind that holds messages. -/
def IsEml (p : FsPath) : Prop := ascii ".eml" <:+ p.lastName

/-- A file of the kind that recovery removes. -/
def IsTemp (p : FsPath) : Prop := FileName.extension p.filename = ascii ".tmp"

instance (p : FsPath) : Decidable (IsEml p) := inferInstanceAs (Decidable (_ <:+ _))

instance (p : FsPath) : Decidable (IsTemp p) := inferInstanceAs (Decidable (_ = _))

theorem not_both_endings {name : Bytes} (temp : ascii ".tmp" <:+ name) : ¬ ascii ".eml" <:+ name := by
  intro eml
  have same := List.suffix_of_suffix_length_le temp eml (by decide)
  exact absurd same (by decide)

theorem not_eml_of_temp {p : FsPath} (temp : IsTemp p) : ¬ IsEml p := by
  have whole := FileName.stem_extension p.filename
  rw [show FileName.extension p.filename = ascii ".tmp" from temp] at whole
  have ends : ascii ".tmp" <:+ p.filename := ⟨_, whole⟩
  rw [IsEml, FsPath.lastName, if_neg (FsPath.parts_of_filename (by decide) ends)]
  exact not_both_endings ends

namespace MailStore

variable (syn : PathSyntax) (rootDir user id : Bytes)

theorem makeUserInboxDir_filename : ∃ front,
    (makeUserInboxDir syn rootDir user).parts = front ++ [ascii "INBOX"] := by
  have inbox : syn.parse (ascii "INBOX") = ⟨[], false, [ascii "INBOX"]⟩ :=
    syn.parse_plain (by decide) (by decide)
  rw [makeUserInboxDir, inbox]
  exact ⟨(syn.append (syn.parse rootDir) (syn.parse user)).parts,
    by simp [PathSyntax.append, syn.relative]⟩

theorem makeUserInboxDir_parts : (makeUserInboxDir syn rootDir user).parts ≠ [] := by
  obtain ⟨front, parts⟩ := makeUserInboxDir_filename syn rootDir user
  simp [parts]

theorem makeUserInboxDir_ordinary : Ordinary (makeUserInboxDir syn rootDir user).filename := by
  obtain ⟨front, parts⟩ := makeUserInboxDir_filename syn rootDir user
  have last : (makeUserInboxDir syn rootDir user).filename = ascii "INBOX" := by
    simp [FsPath.filename, parts]
  rw [last]
  decide

theorem makeMessagePath_plain (plain : id.all Bytes.isPlain = true) :
    makeMessagePath syn rootDir user id =
      (makeUserInboxDir syn rootDir user).child (id ++ ascii ".eml") := by
  apply syn.append_plain (makeUserInboxDir_parts syn rootDir user)
  · exact List.append_ne_nil_of_right_ne_nil _ (by decide)
  · rw [List.all_append, plain]
    decide

theorem messageName_isName : IsName (id ++ ascii ".eml") :=
  FsPath.isName_of_long (by simp [ascii])

theorem tempPath_child {path : FsPath} (parts : path.parts ≠ []) :
    tempPath path = path.parent.child (path.filename ++ ascii ".tmp") := if_neg parts

theorem tempPath_plain (plain : id.all Bytes.isPlain = true) :
    tempPath (makeMessagePath syn rootDir user id) =
      (makeUserInboxDir syn rootDir user).child (id ++ ascii ".eml" ++ ascii ".tmp") := by
  rw [makeMessagePath_plain _ _ _ _ plain, tempPath_child (by simp [FsPath.child]),
    FsPath.child_parent, FsPath.child_filename]

theorem tempName_isName : IsName (id ++ ascii ".eml" ++ ascii ".tmp") :=
  FsPath.isName_of_long (by simp [ascii])

theorem makeMessagePath_isEml : IsEml (makeMessagePath syn rootDir user id) :=
  syn.append_ending _ id (by decide) (by decide)

/-! ### The temporary file -/

section TempPath

variable {syn} {names : Naming syn} {path : FsPath}

theorem tempPath_lastName (path : FsPath) :
    (tempPath path).lastName = path.lastName ++ ascii ".tmp" := by
  by_cases bare : path.parts = []
  · simp [tempPath, FsPath.lastName, bare]
  · rw [tempPath_child bare, FsPath.child_lastName, FsPath.lastName, if_neg bare]

theorem tempPath_nulFree (nulFree : path.NulFree) : (tempPath path).NulFree := by
  by_cases bare : path.parts = []
  · have clean : 0 ∉ path.rootName ++ ascii ".tmp" :=
      List.not_mem_append nulFree.1 (by decide)
    rw [tempPath, if_pos bare]
    exact ⟨clean, nulFree.2⟩
  · have inParts := FsPath.nulFree_child.mp ((FsPath.parent_child bare).symm ▸ nulFree)
    rw [tempPath_child bare, FsPath.nulFree_child]
    exact ⟨inParts.1, List.not_mem_append inParts.2 (by decide)⟩

/-- What is cut off at a NUL includes the ending of the temporary path. -/
theorem tempPath_cut (cut : ¬ path.NulFree) : syn.cString (tempPath path) = syn.cString path := by
  by_cases bare : path.parts = []
  · have nul : 0 ∈ path.rootName := by simpa [FsPath.NulFree, bare] using cut
    have longer : 0 ∈ path.rootName ++ ascii ".tmp" := List.mem_append_left _ nul
    simp only [tempPath, bare, if_true, PathSyntax.cString, nul, longer,
      FsPath.upToNul_append _ nul]
  by_cases front : path.parent.NulFree
  · have nul : 0 ∈ path.filename := by
      by_contra clean
      exact cut (FsPath.parent_child bare ▸ FsPath.nulFree_child.mpr ⟨front, clean⟩)
    have rootName : 0 ∉ path.rootName := front.1
    have split : path.parts = path.parent.parts ++ [path.filename] :=
      congrArg FsPath.parts (FsPath.parent_child bare).symm
    rw [tempPath_child bare, PathSyntax.cString, PathSyntax.cString, if_neg rootName, split]
    simp only [FsPath.child, FsPath.parent, rootName, if_false]
    rw [← FsPath.cutParts_lengthened _ (ascii ".tmp") nul]
  · rw [tempPath_child bare, syn.cString_child front]
    conv_rhs => rw [← FsPath.parent_child bare, syn.cString_child front]

theorem locate_tempPath_cut (cut : ¬ path.NulFree) :
    names.locate (tempPath path) = names.locate path := by
  rw [Naming.locate, Naming.locate, tempPath_cut cut]

theorem locate_isEml (nulFree : path.NulFree) (eml : IsEml path) : IsEml (names.locate path) :=
  Naming.locate_lastName nulFree (by decide) (by decide) eml

/-- A temporary path never names a file of the other kind. -/
theorem tempPath_not_eml (nulFree : path.NulFree) : ¬ IsEml (names.locate (tempPath path)) := by
  apply not_both_endings
  apply Naming.locate_lastName (tempPath_nulFree nulFree) (by decide) (by decide)
  rw [tempPath_lastName]
  exact List.suffix_append _ _

theorem tempPath_not_eml_iff : ¬ IsEml (names.locate (tempPath path)) ↔
    path.NulFree ∨ ¬ IsEml (names.locate path) := by
  by_cases nulFree : path.NulFree
  · exact iff_of_true (tempPath_not_eml nulFree) (.inl nulFree)
  · rw [locate_tempPath_cut nulFree]
    exact (or_iff_right nulFree).symm

end TempPath

theorem tempPath_inside {top : FsPath} (inside : AtOrBelow top (makeUserInboxDir syn rootDir user))
    (plain : id.all Bytes.isPlain = true) :
    StrictlyInside top (tempPath (makeMessagePath syn rootDir user id)) := by
  rw [tempPath_plain _ _ _ _ plain]
  exact inside.child (tempName_isName id)

theorem tempPath_isTemp {names : Naming syn}
    (nulFree : (makeMessagePath syn rootDir user id).NulFree)
    (plain : id.all Bytes.isPlain = true) :
    IsTemp (names.locate (tempPath (makeMessagePath syn rootDir user id))) := by
  have ends : ascii ".eml.tmp" <:+
      (names.locate (tempPath (makeMessagePath syn rootDir user id))).filename := by
    apply Naming.locate_filename (tempPath_nulFree nulFree) (by decide) (by decide)
    rw [tempPath_plain _ _ _ _ plain, FsPath.child_filename, List.append_assoc]
    exact List.suffix_append _ _
  obtain ⟨front, whole⟩ := ends
  have both : ascii ".eml.tmp" = ascii ".eml" ++ Bytes.dot :: ascii "tmp" := by decide
  rw [IsTemp, ← whole, both, ← List.append_assoc]
  refine FileName.extension_append (ascii "tmp") ?_ (by decide) (by decide)
  exact List.append_ne_nil_of_right_ne_nil _ (by decide)

/-! ### Identifiers -/

/-- The identifier under which a message is stored at a time. -/
def idAt (msg : StoredMessage) (now : Nat) : Bytes :=
  if msg.id = [] then toDecimal (now / ticksPerMillisecond) else msg.id

theorem idAt_generated {msg : StoredMessage} (generated : msg.id = []) (now : Nat) :
    toDecimal (now / ticksPerMillisecond) = idAt msg now := by
  rw [idAt, if_pos generated]

theorem idAt_given {msg : StoredMessage} (given : msg.id ≠ []) (now : Nat) :
    msg.id = idAt msg now := by
  rw [idAt, if_neg given]

theorem toDecimal_plain (n : Nat) : (toDecimal n).all Bytes.isPlain = true := by
  refine List.all_eq_true.mpr fun b member => ?_
  have digit := toDecimal_digit member
  simp [Bytes.isPlain, Bytes.isDigit, digit.1, digit.2]

theorem idAt_plain {msg : StoredMessage} (plain : msg.id.all Bytes.isPlain = true) (now : Nat) :
    (idAt msg now).all Bytes.isPlain = true := by
  unfold idAt
  split
  · exact toDecimal_plain _
  · exact plain

theorem idAt_clean {msg : StoredMessage} (clean : 0 ∉ msg.id) (now : Nat) : 0 ∉ idAt msg now := by
  unfold idAt
  split
  · intro nul
    exact absurd (List.all_eq_true.mp (toDecimal_plain _) 0 nul) (by decide)
  · exact clean

theorem idAt_ne_nil (msg : StoredMessage) (now : Nat) : idAt msg now ≠ [] := by
  unfold idAt
  split
  · exact toDecimal_ne_nil _
  · assumption

/-! ### Generated identifiers -/

section Generated

variable {syn} {rootDir user id}

theorem toDecimal_simple (n : Nat) :
    ∀ c ∈ toDecimal n, Bytes.isPlain c = true ∧ Bytes.lowerByte c = c := by
  intro c member
  have digit := toDecimal_digit member
  refine ⟨List.all_eq_true.mp (toDecimal_plain n) c member, if_neg ?_⟩
  have below : ¬ 65 ≤ c := by
    rw [UInt8.le_iff_toNat_le]
    have upper : c.toNat ≤ 57 := digit.2
    exact Nat.not_le.mpr (Nat.lt_of_le_of_lt upper (by decide))
  simp [below]

variable {names : Naming syn}

/-- A generated identifier gives an entry of the mailbox, unless the mailbox is cut at a NUL:
    then the message gets its place. -/
theorem locate_generated (n : Nat) :
    names.locate (makeMessagePath syn rootDir user (toDecimal n)) =
      if (makeUserInboxDir syn rootDir user).NulFree
      then (names.locate (makeUserInboxDir syn rootDir user)).child (toDecimal n ++ ascii ".eml")
      else names.locate (makeUserInboxDir syn rootDir user) := by
  rw [makeMessagePath_plain _ _ _ _ (toDecimal_plain n)]
  split
  · rename_i nulFree
    exact Naming.locate_child nulFree (makeUserInboxDir_ordinary syn rootDir user)
      (by simp [ascii]) (Simple.append (by decide) (toDecimal_simple n) (by decide))
  · rename_i cut
    exact Naming.locate_cut cut _

theorem messagePath_nulFree (plain : id.all Bytes.isPlain = true) :
    (makeMessagePath syn rootDir user id).NulFree ↔ (makeUserInboxDir syn rootDir user).NulFree := by
  have clean : 0 ∉ id ++ ascii ".eml" := by
    refine List.not_mem_append (fun nul => ?_) (by decide)
    exact absurd (List.all_eq_true.mp plain 0 nul) (by decide)
  rw [makeMessagePath_plain _ _ _ _ plain, FsPath.nulFree_child, and_iff_left clean]

theorem locate_generatedTemp (n : Nat) (nulFree : (makeUserInboxDir syn rootDir user).NulFree) :
    names.locate (tempPath (makeMessagePath syn rootDir user (toDecimal n))) =
      (names.locate (makeUserInboxDir syn rootDir user)).child
        (toDecimal n ++ ascii ".eml" ++ ascii ".tmp") := by
  rw [tempPath_plain _ _ _ _ (toDecimal_plain n)]
  refine Naming.locate_child nulFree (makeUserInboxDir_ordinary syn rootDir user)
    (by simp [ascii]) ?_
  rw [List.append_assoc]
  exact Simple.append (by decide) (toDecimal_simple n) (by decide)

end Generated

end MailStore

end EmailServer.Storage
