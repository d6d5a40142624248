import EmailServer.Storage.Mailboxes

/-! # Confinement of the mail store

What a call of `store` creates or writes: the message, its temporary file, and
the directories that are missing on the way to the mailbox. The mailbox is the
user's name joined to the root directory as it stands, and the file operations
get it up to its first NUL, so where all of this lies depends on what the name
says.
-/

namespace EmailServer.Storage

open FsPath (StrictlyInside AtOrBelow)

variable {syn : PathSyntax}

section Disks

variable (names : Naming syn) (fails : FsOp FsPath FsPath → Prop)

/-- A file can be made at `p`: there is a directory for it, and none in its place. -/
def Creatable (s : Disk FsPath) (p : FsPath) : Prop :=
  s.dirs (names.locate p) = false ∧ s.dirs (names.locate p).parent = true

instance (s : Disk FsPath) (p : FsPath) : Decidable (Creatable names s p) :=
  inferInstanceAs (Decidable (_ ∧ _))

/-- The disk under a mail store, with its directories: `CreateFileA` makes a file only where
    one can be made. -/
def mailEffect : Sem (FsOp FsPath FsPath) FsOp.Res (Disk FsPath)
  | .createFile p, s, ok, t =>
      if ok then Creatable names s p ∧ (mailPlatform names fails).Effect (.createFile p) s true t
      else (mailPlatform names fails).Effect (.createFile p) s false t ∨
        ¬ Creatable names s p ∧ t = s
  | op, s, r, t => (mailPlatform names fails).Effect op s r t

/-- The paths, as the calls get them, at which an operation creates, writes or removes
    something. -/
def touches (s : Disk FsPath) : FsOp FsPath FsPath → List FsPath
  | .createDirectories p => (prefixes (syn.cString p)).filter fun q => !s.dirs (names.locate q)
  | .createFile p => if Creatable names s p then [syn.cString p] else []
  | op => op.writes.map syn.cString

variable (syn) in
/-- Nothing outside the root directory is made or written for `user`. -/
structure Confined (rootDir : Bytes) (s : Disk FsPath) (user id : Bytes) : Prop where
  /-- The directories that have to be made are inside. -/
  way : s.present (names.locate (MailStore.makeUserInboxDir syn rootDir user)) = false →
    ∀ q ∈ prefixes (syn.cString (MailStore.makeUserInboxDir syn rootDir user)),
      s.dirs (names.locate q) = false → StrictlyInside (syn.parse rootDir) q
  /-- A mailbox is inside, unless there is none or a directory in the way of the message. -/
  mailbox : (MailStore.makeUserInboxDir syn rootDir user).NulFree →
    s.dirs (names.locate (MailStore.makeUserInboxDir syn rootDir user)) = true →
    s.dirs (names.locate (MailStore.tempPath (MailStore.makeMessagePath syn rootDir user id))) = false →
      AtOrBelow (syn.parse rootDir) (MailStore.makeUserInboxDir syn rootDir user)
  /-- A file that the name is cut to is inside. -/
  file : ¬ (MailStore.makeUserInboxDir syn rootDir user).NulFree →
    s.present (names.locate (MailStore.makeUserInboxDir syn rootDir user)) = true →
    Creatable names s (MailStore.makeUserInboxDir syn rootDir user) →
      StrictlyInside (syn.parse rootDir) (syn.cString (MailStore.makeUserInboxDir syn rootDir user))

end Disks

variable {names : Naming syn} {rootDir : Bytes} {fails : FsOp FsPath FsPath → Prop}
  {msg : StoredMessage} {s t : Disk FsPath} {op : FsOp FsPath FsPath}

theorem mem_prefixes {p : FsPath} (parts : p.parts ≠ []) : p ∈ prefixes p := by
  refine List.mem_map.mpr ⟨p.parts, ?_, rfl⟩
  obtain ⟨first, rest, split⟩ := List.exists_cons_of_ne_nil parts
  rw [split, List.inits, List.drop_succ_cons, List.drop_zero]
  exact List.mem_map.mpr ⟨rest, List.mem_inits _ _ |>.mpr List.prefix_rfl, rfl⟩

theorem atomicWriteFile_touches {temp path p : FsPath} {content : Bytes} {u : Disk FsPath}
    (execution : (AtomicWrite.atomicWriteFile temp path content).Executes (mailEffect names fails)
      u op t) (touched : p ∈ touches names t op) :
    Creatable names u temp ∧ (p = syn.cString temp ∨ p = syn.cString path) := by
  let Own : FsOp FsPath FsPath → Prop := fun op =>
    ∀ t, ∀ p ∈ touches names t op, p = syn.cString temp ∨ p = syn.cString path
  have discards : (AtomicWrite.discard temp : StoreProg (Except Exn Bool)).Uses Own :=
    ⟨by simp [Own, touches, FsOp.writes], fun _ => trivial⟩
  have abandons : (AtomicWrite.abandon temp : StoreProg (Except Exn Bool)).Uses Own :=
    ⟨by simp [Own, touches, FsOp.writes], fun _ => discards⟩
  have verifies : (AtomicWrite.verify path : StoreProg (Except Exn Bool)).Uses Own :=
    ⟨by simp [Own, touches, FsOp.writes], fun found => by cases found <;> trivial⟩
  rcases Prog.executes_step.mp execution with ⟨rfl, rfl⟩ | ⟨created, mid, effect, execution⟩
  · change p ∈ if Creatable names t temp then [syn.cString temp] else [] at touched
    split at touched
    · rename_i creatable
      exact ⟨creatable, .inl (List.mem_singleton.mp touched)⟩
    · simp at touched
  cases created with
  | false => exact absurd execution Prog.executes_pure
  | true =>
  have creatable : Creatable names u temp := effect.1
  refine ⟨creatable, @Prog.Uses.executes _ _ _ _ _ Own _ ?_ _ _ _ execution t p touched⟩
  refine ⟨by simp [Own, touches, FsOp.writes], fun written => ?_⟩
  dsimp only
  split
  · exact abandons
  refine ⟨by simp [Own, touches, FsOp.writes], fun flushed => ?_⟩
  cases flushed with
  | false => exact abandons
  | true =>
  refine ⟨by simp [Own, touches, FsOp.writes], fun _ => ?_⟩
  refine ⟨by simp [Own, touches, FsOp.writes], fun moved => ?_⟩
  cases moved with
  | false => exact discards
  | true => exact verifies

theorem ensureDirExists_touches {dir p : FsPath}
    (execution : (MailStore.ensureDirExists dir).Executes (mailEffect names fails) s op t)
    (touched : p ∈ touches names t op) :
    s.present (names.locate dir) = false ∧ p ∈ prefixes (syn.cString dir) ∧
      s.dirs (names.locate p) = false := by
  rcases Prog.executes_step.mp execution with ⟨rfl, -⟩ | ⟨found, mid, effect, execution⟩
  · simp [touches, FsOp.writes] at touched
  cases found with
  | none => exact absurd execution Prog.executes_pure
  | some found =>
  obtain ⟨looked, rfl⟩ := effect
  cases found with
  | true => exact absurd execution Prog.executes_pure
  | false =>
      rcases Prog.executes_step.mp execution with ⟨rfl, rfl⟩ | ⟨created, mid, -, execution⟩
      · have made : p ∈ prefixes (syn.cString dir) ∧ t.dirs (names.locate p) = false := by
          simpa [touches] using touched
        exact ⟨looked.symm, made⟩
      · exact absurd execution Prog.executes_pure

theorem ensureDirExists_dirs {dir : FsPath} {u : Disk FsPath}
    (run : (MailStore.ensureDirExists dir).Runs (mailEffect names fails) s true u) :
    u.now = s.now ∧ (s.present (names.locate dir) = true ∧ u.dirs = s.dirs ∨
      s.present (names.locate dir) = false ∧
        ∀ q ∈ prefixes (syn.cString dir), u.dirs (names.locate q) = true) := by
  obtain ⟨found, mid, effect, run⟩ := run
  cases found with
  | none => exact absurd run.1 (by decide)
  | some found =>
  obtain ⟨looked, rfl⟩ := effect
  cases found with
  | true =>
      obtain ⟨-, rfl⟩ := run
      exact ⟨rfl, .inl ⟨looked.symm, rfl⟩⟩
  | false =>
      obtain ⟨created, made, effect, rfl, rfl⟩ := run
      obtain rfl : u = mid.makeDirs _ := effect
      refine ⟨rfl, .inr ⟨looked.symm, fun q way => ?_⟩⟩
      have listed : names.locate q ∈ (prefixes (syn.cString dir)).map names.locate :=
        List.mem_map_of_mem way
      simp only [Disk.makeDirs, mailPlatform, listed, decide_true, Bool.or_true]

/-- What a call touches: missing directories, or the temporary file and the message. -/
theorem store_touches (generated : msg.id = []) {p : FsPath}
    (execution : (MailStore.store syn rootDir msg).Executes (mailEffect names fails) s op t)
    (touched : p ∈ touches names t op) :
    msg.mailboxUser ≠ [] ∧
      (s.present (names.locate (MailStore.makeUserInboxDir syn rootDir msg.mailboxUser)) = false ∧
          p ∈ prefixes (syn.cString (MailStore.makeUserInboxDir syn rootDir msg.mailboxUser)) ∧
          s.dirs (names.locate p) = false ∨
        ∃ u, (MailStore.ensureDirExists
              (MailStore.makeUserInboxDir syn rootDir msg.mailboxUser)).Runs
            (mailEffect names fails) s true u ∧
          Creatable names u (MailStore.tempPath (MailStore.makeMessagePath syn rootDir
            msg.mailboxUser (MailStore.idAt msg s.now))) ∧
          (p = syn.cString (MailStore.tempPath (MailStore.makeMessagePath syn rootDir
              msg.mailboxUser (MailStore.idAt msg s.now))) ∨
            p = syn.cString (MailStore.makeMessagePath syn rootDir msg.mailboxUser
              (MailStore.idAt msg s.now)))) := by
  rw [MailStore.store] at execution
  split at execution
  · exact absurd execution Prog.executes_pure
  rename_i user
  refine ⟨user, ?_⟩
  rcases Prog.executes_bind.mp execution with execution | ⟨ensured, u, run, execution⟩
  · exact .inl (ensureDirExists_touches execution touched)
  right
  cases ensured with
  | false => exact absurd execution Prog.executes_pure
  | true =>
  rw [if_neg (by decide)] at execution
  rcases Prog.executes_bind.mp execution with execution | ⟨id, last, reading, execution⟩
  · rcases Prog.executes_step.mp execution with ⟨rfl, -⟩ | ⟨_, _, _, execution⟩
    · simp [touches, FsOp.writes] at touched
    · exact absurd execution Prog.executes_pure
  obtain ⟨time, mid, ⟨rfl, rfl⟩, rfl, rfl⟩ := reading
  rw [MailStore.idAt_generated generated, (ensureDirExists_dirs run).1, MailStore.storeAs,
    Prog.map] at execution
  rcases Prog.executes_bind.mp execution with execution | ⟨_, _, _, execution⟩
  · exact ⟨_, run, atomicWriteFile_touches execution touched⟩
  · exact absurd execution Prog.executes_pure

theorem store_makes (user : msg.mailboxUser ≠ [])
    (missing : s.present (names.locate
      (MailStore.makeUserInboxDir syn rootDir msg.mailboxUser)) = false) :
    (MailStore.store syn rootDir msg).Executes (mailEffect names fails) s
      (.createDirectories (MailStore.makeUserInboxDir syn rootDir msg.mailboxUser)) s := by
  have looked : mailEffect names fails
      (.fileExists (MailStore.makeUserInboxDir syn rootDir msg.mailboxUser)) s (some false) s :=
    ⟨missing.symm, rfl⟩
  rw [MailStore.store, if_neg user]
  exact Prog.executes_bind.mpr (.inl (.later looked .here))

theorem store_creates (user : msg.mailboxUser ≠ []) (there : s.present (names.locate
      (MailStore.makeUserInboxDir syn rootDir msg.mailboxUser)) = true) :
    (MailStore.store syn rootDir msg).Executes (mailEffect names fails) s
      (.createFile (MailStore.tempPath (MailStore.makeMessagePath syn rootDir msg.mailboxUser
        (MailStore.idAt msg s.now)))) s := by
  have ensured : (MailStore.ensureDirExists
      (MailStore.makeUserInboxDir syn rootDir msg.mailboxUser)).Runs
        (mailEffect names fails) s true s := ⟨some true, s, ⟨there.symm, rfl⟩, rfl, rfl⟩
  have writes : (MailStore.storeAs syn rootDir msg (MailStore.idAt msg s.now)).Executes
      (mailEffect names fails) s (.createFile (MailStore.tempPath
        (MailStore.makeMessagePath syn rootDir msg.mailboxUser (MailStore.idAt msg s.now)))) s :=
    Prog.executes_bind.mpr (.inl .here)
  rw [MailStore.store, if_neg user]
  refine Prog.executes_bind.mpr (.inr ⟨true, s, ensured, ?_⟩)
  simp only [Bool.not_true, Bool.false_eq_true, if_false]
  split
  · rename_i generated
    refine Prog.executes_bind.mpr (.inr ⟨_, s, ⟨s.now, s, ⟨rfl, rfl⟩, rfl, rfl⟩, ?_⟩)
    rw [MailStore.idAt_generated generated]
    exact writes
  · rename_i given
    rw [MailStore.idAt_given given s.now]
    exact writes

section Places

variable {user : Bytes} (n : Nat)

theorem creatable_temp (nulFree : (MailStore.makeUserInboxDir syn rootDir user).NulFree) :
    Creatable names s (MailStore.tempPath (MailStore.makeMessagePath syn rootDir user (toDecimal n))) ↔
      s.dirs (names.locate (MailStore.tempPath
          (MailStore.makeMessagePath syn rootDir user (toDecimal n)))) = false ∧
        s.dirs (names.locate (MailStore.makeUserInboxDir syn rootDir user)) = true := by
  rw [Creatable, MailStore.locate_generatedTemp n nulFree, FsPath.child_parent]

theorem cString_cut (cut : ¬ (MailStore.makeUserInboxDir syn rootDir user).NulFree) :
    syn.cString (MailStore.makeMessagePath syn rootDir user (toDecimal n)) =
        syn.cString (MailStore.makeUserInboxDir syn rootDir user) ∧
      syn.cString (MailStore.tempPath (MailStore.makeMessagePath syn rootDir user (toDecimal n))) =
        syn.cString (MailStore.makeUserInboxDir syn rootDir user) := by
  have plain := MailStore.toDecimal_plain n
  have message : syn.cString (MailStore.makeMessagePath syn rootDir user (toDecimal n)) =
      syn.cString (MailStore.makeUserInboxDir syn rootDir user) := by
    rw [MailStore.makeMessagePath_plain _ _ _ _ plain, syn.cString_child cut]
  refine ⟨message, ?_⟩
  rw [MailStore.tempPath_cut ((MailStore.messagePath_nulFree plain).not.mpr cut), message]

theorem stored_inside {n : Nat} {p : FsPath}
    (nulFree : (MailStore.makeUserInboxDir syn rootDir user).NulFree)
    (below : AtOrBelow (syn.parse rootDir) (MailStore.makeUserInboxDir syn rootDir user))
    (file : p = syn.cString (MailStore.tempPath
        (MailStore.makeMessagePath syn rootDir user (toDecimal n))) ∨
      p = syn.cString (MailStore.makeMessagePath syn rootDir user (toDecimal n))) :
    StrictlyInside (syn.parse rootDir) p := by
  have plain := MailStore.toDecimal_plain n
  have clean := (MailStore.messagePath_nulFree plain).mpr nulFree
  rw [syn.cString_nulFree clean, syn.cString_nulFree (MailStore.tempPath_nulFree clean),
    MailStore.tempPath_plain _ _ _ _ plain, MailStore.makeMessagePath_plain _ _ _ _ plain] at file
  rcases file with rfl | rfl
  · exact below.child (MailStore.tempName_isName _)
  · exact below.child (MailStore.messageName_isName _)

theorem not_creatable {p : FsPath}
    (made : ∀ q ∈ prefixes (syn.cString p), s.dirs (names.locate q) = true) :
    ¬ Creatable names s p := by
  rintro ⟨place, parent⟩
  by_cases bare : (syn.cString p).parts = []
  · have still : (names.locate p).parent = names.locate p := by
      have none : (names.locate p).parts = [] := names.place_bare _ bare
      rw [FsPath.parent, none, List.dropLast_nil, ← none]
    rw [still, place] at parent
    cases parent
  · have here := made _ (mem_prefixes bare)
    rw [Naming.locate, syn.cString_nulFree (syn.cString_clean p)] at here
    rw [Naming.locate, here] at place
    cases place

end Places

theorem Confined.of_inside (generated : msg.id = []) (user : msg.mailboxUser ≠ [])
    (inside : ∀ op t, (MailStore.store syn rootDir msg).Executes (mailEffect names fails) s op t →
      ∀ p ∈ touches names t op, StrictlyInside (syn.parse rootDir) p) :
    Confined syn names rootDir s msg.mailboxUser (MailStore.idAt msg s.now) := by
  have digits : MailStore.idAt msg s.now = toDecimal (s.now / ticksPerMillisecond) :=
    (MailStore.idAt_generated generated s.now).symm
  have plain := MailStore.toDecimal_plain (s.now / ticksPerMillisecond)
  have temp : ∀ p, s.present (names.locate
        (MailStore.makeUserInboxDir syn rootDir msg.mailboxUser)) = true →
      Creatable names s (MailStore.tempPath (MailStore.makeMessagePath syn rootDir
        msg.mailboxUser (MailStore.idAt msg s.now))) →
      syn.cString (MailStore.tempPath (MailStore.makeMessagePath syn rootDir
        msg.mailboxUser (MailStore.idAt msg s.now))) = p → StrictlyInside (syn.parse rootDir) p := by
    rintro _ there creatable rfl
    refine inside _ s (store_creates user there) _ ?_
    rw [touches, if_pos creatable]
    exact List.mem_singleton_self _
  rw [digits] at temp ⊢
  refine ⟨fun missing q way absent => ?_, fun nulFree mailbox free => ?_,
    fun cut there creatable => ?_⟩
  · refine inside _ s (store_makes user missing) q ?_
    exact List.mem_filter.mpr ⟨way, by simpa using absent⟩
  · have there : s.present (names.locate
        (MailStore.makeUserInboxDir syn rootDir msg.mailboxUser)) = true := by
      simp [Disk.present, mailbox]
    have within := temp _ there ((creatable_temp _ nulFree).mpr ⟨free, mailbox⟩)
      (syn.cString_nulFree (MailStore.tempPath_nulFree
        ((MailStore.messagePath_nulFree plain).mpr nulFree)))
    rw [MailStore.tempPath_plain _ _ _ _ plain] at within
    exact FsPath.StrictlyInside.parent (MailStore.tempName_isName _) within
  · have same := (cString_cut (s.now / ticksPerMillisecond) cut).2
    refine temp _ there ?_ same
    rwa [Creatable, Naming.locate, same]

theorem Confined.inside {p : FsPath} (generated : msg.id = [])
    (confined : Confined syn names rootDir s msg.mailboxUser (MailStore.idAt msg s.now))
    (execution : (MailStore.store syn rootDir msg).Executes (mailEffect names fails) s op t)
    (touched : p ∈ touches names t op) : StrictlyInside (syn.parse rootDir) p := by
  have digits : MailStore.idAt msg s.now = toDecimal (s.now / ticksPerMillisecond) :=
    (MailStore.idAt_generated generated s.now).symm
  obtain ⟨-, made | ⟨u, run, creatable, file⟩⟩ := store_touches generated execution touched
  · exact confined.way made.1 p made.2.1 made.2.2
  rw [digits] at creatable file confined
  obtain ⟨-, found | made⟩ := ensureDirExists_dirs run
  all_goals by_cases nulFree : (MailStore.makeUserInboxDir syn rootDir msg.mailboxUser).NulFree
  · -- in a mailbox that was there
    rw [creatable_temp _ nulFree, found.2] at creatable
    have below := confined.mailbox nulFree creatable.2 creatable.1
    exact stored_inside nulFree below file
  · -- over a file that was there
    obtain ⟨message, temp⟩ := cString_cut (s.now / ticksPerMillisecond) nulFree
    rw [message, temp, or_self_iff] at file
    rw [file]
    refine confined.file nulFree found.1 ?_
    rwa [Creatable, Naming.locate, temp, found.2] at creatable
  · -- in a mailbox that was made
    have parts := MailStore.makeUserInboxDir_parts syn rootDir msg.mailboxUser
    have here := syn.cString_nulFree nulFree
    have absent := Bool.or_eq_false_iff.mp made.1
    refine stored_inside nulFree (confined.way made.1 _ ?_ absent.2).1 file
    rw [here]
    exact mem_prefixes parts
  · -- a directory was made where the files would be
    have temp := (cString_cut (s.now / ticksPerMillisecond) nulFree).2
    refine absurd creatable (not_creatable ?_)
    rw [temp]
    exact made.2

/-- Whatever fails, all that a call touches lies strictly inside the root
    directory if and only if the user is empty or confined. -/
theorem store_confined_iff (generated : msg.id = []) :
    (∀ op t, (MailStore.store syn rootDir msg).Executes (mailEffect names fails) s op t →
      ∀ p ∈ touches names t op, StrictlyInside (syn.parse rootDir) p) ↔
      (msg.mailboxUser = [] ∨
        Confined syn names rootDir s msg.mailboxUser (MailStore.idAt msg s.now)) := by
  constructor
  · intro inside
    by_cases user : msg.mailboxUser = []
    · exact .inl user
    · exact .inr (.of_inside generated user inside)
  · rintro confined op t execution p touched
    obtain ⟨user, -⟩ := store_touches generated execution touched
    exact (confined.resolve_left user).inside generated execution touched

end EmailServer.Storage
