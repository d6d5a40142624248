import EmailServer.Storage.Mailboxes

/-! # Durable writes

What a write can leave behind: until the rename nothing but the temporary file
has changed, and from the rename on the complete content is in place and on the
disk. Everything about failures, crashes and recovery follows from that, as long
as the temporary file is no message itself.
-/

namespace EmailServer

/-! ## Atomic writes -/

namespace AtomicWrite

variable {P D : Type} (W : Platform P D) (temp path : P) (content : Bytes)

/-- From `s` to `t` only the temporary file has changed. -/
def Kept (s t : Disk P) : Prop := ∀ p, p ≠ W.locate temp → t.files p = s.files p

/-- The content is in place and on the disk; other files have not changed. -/
structure Replaced (s t : Disk P) : Prop where
  whole : ∃ f, t.files (W.locate path) = some f ∧ f.data = content ∧ f.synced = true
  others : ∀ p, p ≠ W.locate temp → p ≠ W.locate path → t.files p = s.files p

/-- What a write leaves behind wherever it is cut off. -/
def Torn (s t : Disk P) : Prop := Kept W temp s t ∨ Replaced W temp path content s t

/-- What a write has done when it returns or throws. -/
def Outcome (s : Disk P) : Except Exn Bool → Disk P → Prop
  | .ok true, t => Replaced W temp path content s t ∧
      (W.locate temp ≠ W.locate path → t.files (W.locate temp) = none)
  | .ok false, t => Kept W temp s t ∧
      (t.files = s.files ∨ t.files (W.locate temp) = none ∨ W.fails (.deleteFile temp))
  | .error _, t => Replaced W temp path content s t ∧ W.fails (.fileExists path)

variable {W temp path content} {s t : Disk P}

variable [DecidableEq P]

theorem Kept.step (kept : Kept W temp s t) {op : FsOp P D} {r : op.Res} {u : Disk P}
    (effect : W.Effect op t r u) (only : ∀ q ∈ op.writes, q = temp) : Kept W temp s u := by
  intro p other
  rw [Platform.effect_frame effect fun q member => by rw [only q member]; exact other]
  exact kept p other

variable (path content) in
theorem discard_guards (kept : Kept W temp s t) :
    (discard temp).Guards W.Effect (Torn W temp path content s) (Outcome W temp path content s) t := by
  refine ⟨.inl kept, ?_⟩
  intro deleted u effect
  have kept' := kept.step effect (by simp [FsOp.writes])
  refine ⟨.inl kept', kept', .inr ?_⟩
  cases deleted with
  | true => exact .inl (by simp [show u = t.clear (W.locate temp) from effect])
  | false =>
      obtain ⟨fails | absent, rfl⟩ := effect
      · exact .inr fails
      · exact .inl absent

variable (path content) in
theorem abandon_guards (kept : Kept W temp s t) :
    (abandon temp).Guards W.Effect (Torn W temp path content s) (Outcome W temp path content s) t :=
  ⟨.inl kept, fun _ _ effect => discard_guards path content (kept.step effect (by simp [FsOp.writes]))⟩

theorem verify_guards (replaced : Replaced W temp path content s t)
    (gone : W.locate temp ≠ W.locate path → t.files (W.locate temp) = none) :
    (verify path).Guards W.Effect (Torn W temp path content s) (Outcome W temp path content s) t := by
  refine ⟨.inr replaced, ?_⟩
  intro found u effect
  cases found with
  | none =>
      obtain ⟨fails, rfl⟩ := effect
      exact ⟨.inr replaced, replaced, fails⟩
  | some found =>
      obtain ⟨same, rfl⟩ := effect
      obtain ⟨f, there, -⟩ := replaced.whole
      obtain rfl : found = true := by rw [same, Disk.present, there]; rfl
      exact ⟨.inr replaced, replaced, gone⟩

theorem renameOver_guards (kept : Kept W temp s t)
    (complete : ∀ f, t.files (W.locate temp) = some f → f.data = content ∧ f.synced = true) :
    (renameOver temp path).Guards W.Effect (Torn W temp path content s)
      (Outcome W temp path content s) t := by
  refine ⟨.inl kept, ?_⟩
  intro moved u effect
  cases moved with
  | false =>
      obtain ⟨-, rfl⟩ := effect
      exact discard_guards path content kept
  | true =>
      obtain ⟨f, there, rfl⟩ := effect
      refine verify_guards ⟨⟨f, by simp, complete f there⟩, fun p notTemp notPath => ?_⟩ ?_
      · rw [Disk.move_other _ _ _ notTemp notPath]
        exact kept p notTemp
      · intro distinct
        simp [distinct]

/-- Wherever it is cut off, a write has changed the temporary file only or has
    put the complete content in place; and it says which of the two. -/
theorem atomicWriteFile_guards (same : t.files = s.files) :
    (atomicWriteFile temp path content).Guards W.Effect (Torn W temp path content s)
      (Outcome W temp path content s) t := by
  have kept : Kept W temp s t := fun p _ => by rw [same]
  refine ⟨.inl kept, ?_⟩
  intro created created' creation
  cases created with
  | false =>
      obtain ⟨-, rfl⟩ := creation
      exact ⟨.inl kept, kept, .inl same⟩
  | true =>
  have kept := kept.step creation (by simp [FsOp.writes])
  refine ⟨.inl kept, ?_⟩
  intro bytesWritten written writing
  have kept := kept.step writing (by simp [FsOp.writes])
  by_cases whole : bytesWritten = some content.length
  · subst whole
    -- a full count means that nothing was cut off the content
    have data : ∀ f, written.files (W.locate temp) = some f → f.data = content := by
      obtain ⟨bound, -, rfl⟩ := writing
      intro f there
      rw [Disk.overwrite_data _ _ _ there]
      have : content.length ≤ content.length % 2 ^ 32 := by
        rw [List.length_take] at bound
        omega
      rw [List.take_take, List.take_of_length_le (by omega)]
    simp only [ne_eq, not_true_eq_false, if_false]
    refine ⟨.inl kept, ?_⟩
    intro flushed flushed' flushing
    have kept := kept.step flushing (by simp [FsOp.writes])
    cases flushed with
    | false => exact abandon_guards path content kept
    | true =>
        refine ⟨.inl kept, ?_⟩
        intro _ closed closing
        have kept := kept.step closing (by simp [FsOp.writes])
        refine renameOver_guards kept fun f there => ?_
        obtain rfl : closed = flushed' := closing
        obtain rfl : closed = written.sync (W.locate temp) := flushing
        refine ⟨?_, Disk.sync_synced _ _ there⟩
        obtain ⟨g, before, same⟩ := Disk.sync_data _ _ there
        rw [same, data g before]
  · simp only [ne_eq, whole, not_false_eq_true, if_true]
    exact abandon_guards path content kept

variable (W temp path) in
theorem atomicWriteFile_runs (short : content.length < 2 ^ 32) (s : Disk P) :
    ∃ t, (atomicWriteFile temp path content).Runs W.Effect s (.ok true) t ∧
      t.dirs = s.dirs ∧ t.now = s.now := by
  have uncut : content.take (content.length % 2 ^ 32) = content := by
    rw [Nat.mod_eq_of_lt short, List.take_length]
  let created := s.put (W.locate temp) ⟨[], false, s.now⟩
  let flushed := (created.overwrite (W.locate temp) content).sync (W.locate temp)
  have there : flushed.files (W.locate temp) = some ⟨content, true, s.now⟩ := by
    simp [flushed, created, Disk.overwrite, Disk.sync]
  let moved := flushed.move (W.locate temp) (W.locate path) ⟨content, true, s.now⟩
  have present : moved.present (W.locate path) = true := by simp [moved, Disk.present]
  have running : (atomicWriteFile temp path content).Runs W.Effect s (.ok true) moved := by
    rw [atomicWriteFile, uncut]
    refine ⟨true, created, rfl, some content.length, created.overwrite (W.locate temp) content,
      ⟨le_rfl, .inl rfl, by rw [List.take_length]⟩, ?_⟩
    simp only [ne_eq, not_true_eq_false, if_false]
    exact ⟨true, flushed, rfl, (), flushed, rfl, true, moved, ⟨_, there, rfl⟩, some true, moved,
      ⟨present.symm, rfl⟩, rfl, rfl⟩
  exact ⟨moved, running, by simp [moved, flushed, created], by simp [moved, flushed, created]⟩

end AtomicWrite

/-! ## Storing a message -/

namespace Storage

open AtomicWrite (Kept Replaced Torn)
open FsPath (StrictlyInside AtOrBelow)

variable (syn : PathSyntax) (names : Naming syn) (rootDir : Bytes)
  (fails : FsOp FsPath FsPath → Prop) (msg : StoredMessage) (s : Disk FsPath)

/-- The path of the message in a call that starts at `s`. -/
def messagePath : FsPath :=
  MailStore.makeMessagePath syn rootDir msg.mailboxUser (MailStore.idAt msg s.now)

/-- What a call writes there. -/
def messageContent : Bytes := MailStore.composed msg (MailStore.idAt msg s.now)

/-- What a cut off call leaves behind. -/
def StoreTorn : Disk FsPath → Prop :=
  Torn (mailPlatform names fails) (MailStore.tempPath (messagePath syn rootDir msg s))
    (messagePath syn rootDir msg s) (messageContent msg s) s

/-- What a call has done when it returns or throws. -/
def StoreOutcome : Except Exn Bytes → Disk FsPath → Prop
  | .ok id, t => AtomicWrite.Outcome (mailPlatform names fails)
      (MailStore.tempPath (messagePath syn rootDir msg s)) (messagePath syn rootDir msg s)
      (messageContent msg s) s (.ok (decide (id ≠ []))) t ∧
    (id ≠ [] → id = MailStore.idAt msg s.now)
  | .error e, t => AtomicWrite.Outcome (mailPlatform names fails)
      (MailStore.tempPath (messagePath syn rootDir msg s)) (messagePath syn rootDir msg s)
      (messageContent msg s) s (.error e) t

variable {syn names rootDir fails msg s} {t : Disk FsPath}

theorem storeTorn_start (same : t.files = s.files) : StoreTorn syn names rootDir fails msg s t :=
  .inl fun p _ => by rw [same]

theorem storeOutcome_nothing (same : t.files = s.files) :
    StoreOutcome syn names rootDir fails msg s (.ok []) t :=
  ⟨⟨fun p _ => by rw [same], .inl same⟩, fun nonempty => absurd rfl nonempty⟩

theorem storeAs_guards (same : t.files = s.files) :
    (MailStore.storeAs syn rootDir msg (MailStore.idAt msg s.now)).Guards
      (mailPlatform names fails).Effect (StoreTorn syn names rootDir fails msg s)
      (StoreOutcome syn names rootDir fails msg s) t := by
  have nonempty := MailStore.idAt_ne_nil msg s.now
  refine (AtomicWrite.atomicWriteFile_guards same).map fun written u outcome => ?_
  match written with
  | .ok true => exact ⟨by simpa [nonempty] using outcome, fun _ => rfl⟩
  | .ok false => exact ⟨outcome, fun nonempty => absurd rfl nonempty⟩
  | .error e => exact outcome

theorem ensureDirExists_guards (dir : FsPath) (s : Disk FsPath) :
    (MailStore.ensureDirExists dir).Guards (mailPlatform names fails).Effect
      (fun t => t.files = s.files ∧ t.now = s.now) (fun _ t => t.files = s.files ∧ t.now = s.now)
      s := by
  refine ⟨⟨rfl, rfl⟩, fun found t looked => ?_⟩
  have same : t = s := by cases found <;> exact looked.2
  subst same
  match found with
  | none | some true => exact ⟨⟨rfl, rfl⟩, rfl, rfl⟩
  | some false =>
      refine ⟨⟨rfl, rfl⟩, fun created u creation => ?_⟩
      have files : u.files = t.files := by
        funext p
        exact Platform.effect_frame creation (by simp [FsOp.writes])
      have now : u.now = t.now := Platform.effect_now creation
      exact ⟨⟨files, now⟩, files, now⟩

theorem store_guards (s : Disk FsPath) :
    (MailStore.store syn rootDir msg).Guards (mailPlatform names fails).Effect
      (StoreTorn syn names rootDir fails msg s) (StoreOutcome syn names rootDir fails msg s) s := by
  unfold MailStore.store
  split
  · exact ⟨storeTorn_start rfl, storeOutcome_nothing rfl⟩
  refine Prog.Guards.bind ((ensureDirExists_guards _ s).mono fun t same => storeTorn_start same.1) ?_
  rintro ensured t ⟨files, now⟩
  split
  · exact ⟨storeTorn_start files, storeOutcome_nothing files⟩
  split
  · rename_i generated
    refine ⟨storeTorn_start files, ?_⟩
    intro time u reading
    obtain ⟨rfl, rfl⟩ := reading
    show (MailStore.storeAs syn rootDir msg (toDecimal (u.now / ticksPerMillisecond))).Guards _ _ _ u
    rw [MailStore.idAt_generated generated, now]
    exact storeAs_guards files
  · rename_i given
    rw [MailStore.idAt_given given s.now]
    exact storeAs_guards files

variable (syn names rootDir fails msg s) in
theorem store_runs (user : msg.mailboxUser ≠ [])
    (mailbox : s.dirs (names.locate
      (MailStore.makeUserInboxDir syn rootDir msg.mailboxUser)) = true)
    (short : (messageContent msg s).length < 2 ^ 32) :
    ∃ t, (MailStore.store syn rootDir msg).Runs (mailPlatform names fails).Effect s
      (.ok (MailStore.idAt msg s.now)) t ∧ t.dirs = s.dirs ∧ t.now = s.now := by
  obtain ⟨t, written, dirs, now⟩ :=
    AtomicWrite.atomicWriteFile_runs (mailPlatform names fails)
      (MailStore.tempPath (messagePath syn rootDir msg s)) (messagePath syn rootDir msg s) short s
  have stored : (MailStore.storeAs syn rootDir msg (MailStore.idAt msg s.now)).Runs
      (mailPlatform names fails).Effect s (.ok (MailStore.idAt msg s.now)) t :=
    Prog.runs_map.mpr ⟨.ok true, written, rfl⟩
  have there : s.present (names.locate
      (MailStore.makeUserInboxDir syn rootDir msg.mailboxUser)) = true := by
    simp [Disk.present, mailbox]
  refine ⟨t, ?_, dirs, now⟩
  rw [MailStore.store, if_neg user]
  refine Prog.runs_bind.mpr ⟨true, s, ⟨some true, s, ⟨there.symm, rfl⟩, rfl, rfl⟩, ?_⟩
  simp only [Bool.not_true, Bool.false_eq_true, if_false]
  split
  · rename_i generated
    refine Prog.runs_bind.mpr ⟨_, s, ⟨s.now, s, ⟨rfl, rfl⟩, rfl, rfl⟩, ?_⟩
    rw [MailStore.idAt_generated generated]
    exact stored
  · rename_i given
    rw [MailStore.idAt_given given s.now]
    exact stored

/-! ## Recovery -/

theorem removeOrphans_files (removes : ∀ p, ¬ fails (.remove p)) {entries : List FsPath}
    {v w : Disk FsPath}
    (run : (MailStore.removeOrphans entries).Runs (mailPlatform names fails).Effect v () w)
    (p : FsPath) :
    w.files p = if ∃ e ∈ entries, IsTemp e ∧ names.locate e = p then none else v.files p := by
  induction entries generalizing v with
  | nil =>
      obtain ⟨-, rfl⟩ := run
      simp
  | cons entry rest ih =>
      rw [MailStore.removeOrphans] at run
      split at run
      · rename_i temp
        obtain ⟨removed, mid, effect, run⟩ := run
        cases removed with
        | none => exact absurd effect.1 (removes entry)
        | some removed =>
            obtain ⟨-, rfl⟩ := effect
            rw [ih run]
            have temp : IsTemp entry := temp
            by_cases this : names.locate entry = p
            · simp [temp, this, mailPlatform]
            · simp [temp, this, Ne.symm this, mailPlatform]
      · rename_i other
        have other : ¬ IsTemp entry := other
        rw [ih run]
        simp [other]

/-- After recovery no temporary file is left inside the root directory. -/
theorem recover_files (removes : ∀ p, ¬ fails (.remove p)) (scans : ∀ d, ¬ fails (.iterate d))
    {v w : Disk FsPath}
    (run : (MailStore.recoverOrphanedTempFiles syn rootDir).Runs (mailPlatform names fails).Effect v () w)
    (p : FsPath) [Decidable (Scanned names (syn.cString (syn.parse rootDir)) p)] :
    w.files p = if IsTemp p ∧ Scanned names (syn.cString (syn.parse rootDir)) p then none
      else v.files p := by
  obtain ⟨entries, mid, scan, run⟩ := run
  cases entries with
  | none => exact absurd scan.1 (scans _)
  | some entries =>
  obtain ⟨lists, rfl⟩ := scan
  have reported : ∀ e, e ∈ entries ↔ Scanned names (syn.cString (syn.parse rootDir)) e ∧
      (mid.files e).isSome = true := lists
  rw [removeOrphans_files removes run]
  by_cases orphan : IsTemp p ∧ Scanned names (syn.cString (syn.parse rootDir)) p
  · rw [if_pos orphan]
    cases found : mid.files p with
    | none => simp
    | some f =>
        refine if_pos ⟨p, (reported p).mpr ⟨orphan.2, ?_⟩, orphan.1, orphan.2.locate⟩
        rw [found]
        rfl
  · rw [if_neg orphan]
    apply if_neg
    rintro ⟨e, member, temp, rfl⟩
    have scanned := ((reported e).mp member).1
    rw [scanned.locate] at orphan
    exact orphan ⟨temp, scanned⟩

/-! ## The guarantees of a call -/

/-- Every operation of a call may fail except for looking whether a file exists
    and deleting it; recovery works. -/
def mayFail : FsOp FsPath FsPath → Prop
  | .fileExists _ | .deleteFile _ | .remove _ | .iterate _ => False
  | _ => True

variable (syn names rootDir msg)

/-- What a call that has returned `r` leaves at `t`. -/
def Finished (prior t : Disk FsPath) : Except Exn Bytes → Prop
  | .ok [] =>
      (∀ p, IsEml p → t.contents p = prior.contents p) ∧
        (t.contents (names.locate (MailStore.tempPath (messagePath syn rootDir msg prior))) = none ∨
          t.contents = prior.contents)
  | .ok id =>
      t.contents (names.locate (MailStore.makeMessagePath syn rootDir msg.mailboxUser id)) =
        some (MailStore.composed msg id)
  | .error _ => False

/-- What recovery leaves at `t` of a call that was cut off. -/
structure Recovered (prior t : Disk FsPath) : Prop where
  old_or_new : ∀ p, IsEml p → t.contents p = prior.contents p ∨
    p = names.locate (messagePath syn rootDir msg prior) ∧
      t.contents p = some (messageContent msg prior)
  no_temp : ∀ p, Scanned names (syn.cString (syn.parse rootDir)) p → IsTemp p → t.contents p = none
  /-- Sessions leave the identifier empty; one with separators names another directory. -/
  own_temp : msg.id.all Bytes.isPlain = true → (messagePath syn rootDir msg prior).NulFree →
    t.contents (names.locate (MailStore.tempPath (messagePath syn rootDir msg prior))) = none

variable {syn names rootDir msg}

theorem store_elsewhere {id : Bytes} (nonempty : id ≠ [])
    (run : (MailStore.store syn rootDir msg).Runs (mailPlatform names fails).Effect s (.ok id) t)
    {p : FsPath}
    (notTemp : p ≠ names.locate (MailStore.tempPath (messagePath syn rootDir msg s)))
    (notPath : p ≠ names.locate (messagePath syn rootDir msg s)) : t.files p = s.files p := by
  obtain ⟨outcome, -⟩ := (store_guards s).runs run
  rw [decide_eq_true nonempty] at outcome
  exact outcome.1.others p notTemp notPath

theorem store_temp_gone {id : Bytes} (nonempty : id ≠ [])
    (run : (MailStore.store syn rootDir msg).Runs (mailPlatform names fails).Effect s (.ok id) t)
    (distinct : names.locate (MailStore.tempPath (messagePath syn rootDir msg s)) ≠
      names.locate (messagePath syn rootDir msg s)) :
    t.files (names.locate (MailStore.tempPath (messagePath syn rootDir msg s))) = none := by
  obtain ⟨outcome, -⟩ := (store_guards s).runs run
  rw [decide_eq_true nonempty] at outcome
  exact outcome.2 distinct

/-- A success changes nothing in another user's mailbox. -/
theorem store_other_mailbox (generated : msg.id = [])
    (nulFree : (MailStore.makeUserInboxDir syn rootDir msg.mailboxUser).NulFree) {id : Bytes}
    (nonempty : id ≠ [])
    (run : (MailStore.store syn rootDir msg).Runs (mailPlatform names fails).Effect s (.ok id) t)
    {other : FsPath}
    (elsewhere : other ≠ names.locate (MailStore.makeUserInboxDir syn rootDir msg.mailboxUser))
    (name : Bytes) : t.files (other.child name) = s.files (other.child name) := by
  have digits : MailStore.idAt msg s.now = toDecimal (s.now / ticksPerMillisecond) :=
    (MailStore.idAt_generated generated s.now).symm
  refine store_elsewhere nonempty run (fun same => elsewhere ?_) (fun same => elsewhere ?_)
  · rw [messagePath, digits, MailStore.locate_generatedTemp _ nulFree] at same
    simpa using congrArg FsPath.parent same
  · rw [messagePath, digits, MailStore.locate_generated, if_pos nulFree] at same
    simpa using congrArg FsPath.parent same

theorem store_id {id : Bytes} (nonempty : id ≠ [])
    (run : (MailStore.store syn rootDir msg).Runs (mailPlatform names fails).Effect s (.ok id) t) :
    id = MailStore.idAt msg s.now := ((store_guards s).runs run).2 nonempty

theorem store_success {id : Bytes} (nonempty : id ≠ [])
    (run : (MailStore.store syn rootDir msg).Runs (mailPlatform names fails).Effect s (.ok id) t) :
    t.contents (names.locate (MailStore.makeMessagePath syn rootDir msg.mailboxUser id)) =
      some (MailStore.composed msg id) := by
  obtain ⟨outcome, this⟩ := (store_guards s).runs run
  rw [decide_eq_true nonempty] at outcome
  obtain ⟨⟨⟨f, there, data, -⟩, -⟩, -⟩ := outcome
  rw [this nonempty, Disk.contents]
  show (t.files (names.locate (messagePath syn rootDir msg s))).map File.data = _
  rw [show t.files (names.locate (messagePath syn rootDir msg s)) = some f from there,
    Option.map_some, data]
  rfl

theorem store_nobody (nobody : msg.mailboxUser = []) :
    MailStore.store syn rootDir msg = .pure (.ok []) := if_pos nobody

section Apart

variable (apart : msg.mailboxUser = [] ∨
  ¬ IsEml (names.locate (MailStore.tempPath (messagePath syn rootDir msg s))))

include apart

theorem store_finished {r : Except Exn Bytes}
    (run : (MailStore.store syn rootDir msg).Runs (mailPlatform names mayFail).Effect s r t) :
    Finished syn names rootDir msg s t r := by
  rcases apart with nobody | apart
  · rw [store_nobody nobody] at run
    obtain ⟨rfl, rfl⟩ := run
    exact ⟨fun _ _ => rfl, .inr rfl⟩
  have outcome := (store_guards s).runs run
  match r with
  | .ok [] =>
      obtain ⟨⟨kept, clean⟩, -⟩ := outcome
      refine ⟨fun p eml => Disk.contents_congr (kept p ?_), ?_⟩
      · rintro rfl
        exact apart eml
      · rcases clean with same | gone | fails
        · exact .inr (funext fun p => Disk.contents_congr (by rw [same]))
        · left
          have gone : t.files (names.locate
            (MailStore.tempPath (messagePath syn rootDir msg s))) = none := gone
          rw [Disk.contents, gone]
          rfl
        · exact absurd fails id
  | .ok (b :: id) => exact store_success (List.cons_ne_nil b id) run
  | .error e => exact absurd outcome.2 id

/-- Wherever a call is cut off, every message is an old or a complete new one that has
    reached the disk. -/
theorem store_settled (settled : ∀ p f, s.files p = some f → f.synced = true)
    (visit : (MailStore.store syn rootDir msg).Visits (mailPlatform names fails).Effect s t)
    {p : FsPath} (eml : IsEml p) :
    (t.files p = s.files p ∨ p = names.locate (messagePath syn rootDir msg s) ∧
      (t.files p).map File.data = some (messageContent msg s)) ∧
      ∀ f, t.files p = some f → f.synced = true := by
  rcases apart with nobody | apart
  · rw [store_nobody nobody] at visit
    cases visit
    exact ⟨.inl rfl, settled p⟩
  have other : p ≠ names.locate (MailStore.tempPath (messagePath syn rootDir msg s)) := by
    rintro rfl
    exact apart eml
  rcases (store_guards s).visits visit with kept | replaced
  · have same := kept p other
    rw [same]
    exact ⟨.inl rfl, settled p⟩
  · obtain ⟨g, there, data, synced⟩ := replaced.whole
    by_cases this : p = names.locate (messagePath syn rootDir msg s)
    · have there : t.files p = some g := by rw [this]; exact there
      refine ⟨.inr ⟨this, by rw [there, Option.map_some, data]⟩, fun f found => ?_⟩
      rw [there] at found
      cases found
      exact synced
    · have same := replaced.others p other this
      rw [same]
      exact ⟨.inl rfl, settled p⟩

theorem store_recovered (settled : ∀ p f, s.files p = some f → f.synced = true)
    (inside : AtOrBelow (syn.cString (syn.parse rootDir))
      (syn.cString (MailStore.makeUserInboxDir syn rootDir msg.mailboxUser)))
    {u v w : Disk FsPath}
    (visit : (MailStore.store syn rootDir msg).Visits (mailPlatform names mayFail).Effect s u)
    (crash : u.Crash v)
    (run : (MailStore.recoverOrphanedTempFiles syn rootDir).Runs
      (mailPlatform names mayFail).Effect v () w) :
    Recovered syn names rootDir msg s w := by
  classical
  have recovered := recover_files (fun _ => id) (fun _ => id) run
  have no_temp : ∀ p, Scanned names (syn.cString (syn.parse rootDir)) p → IsTemp p →
      w.contents p = none := by
    intro p scanned temp
    rw [Disk.contents, recovered, if_pos ⟨temp, scanned⟩]
    rfl
  refine ⟨fun p eml => ?_, no_temp, fun plain nulFree => ?_⟩
  · have notTemp : ¬ IsTemp p := fun temp => not_eml_of_temp temp eml
    obtain ⟨oldOrNew, synced⟩ := store_settled apart settled visit eml
    -- a crash spares what is on the disk, recovery what is no temporary file
    have survives : w.files p = u.files p := by
      rw [recovered, if_neg fun h => notTemp h.1]
      cases found : u.files p with
      | none => exact crash.absent p found
      | some f => exact crash.synced p f found (synced f found)
    rw [Disk.contents, survives]
    rcases oldOrNew with same | new
    · exact .inl (by rw [same]; rfl)
    · exact .inr new
  · have plain := MailStore.idAt_plain plain s.now
    have mailbox := (MailStore.messagePath_nulFree plain).mp nulFree
    rw [syn.cString_nulFree mailbox] at inside
    have clean := MailStore.tempPath_nulFree nulFree
    refine no_temp _ ⟨_, clean, ?_, (Naming.locate_nulFree clean).symm⟩
      (MailStore.tempPath_isTemp syn rootDir msg.mailboxUser _ nulFree plain)
    exact MailStore.tempPath_inside syn rootDir msg.mailboxUser _ inside plain

end Apart

/-- A temporary file that is a message is lost with a write that falls short. -/
theorem store_discards (user : msg.mailboxUser ≠ []) (now : Nat) (old : Bytes) {temp : FsPath}
    (here : names.locate (MailStore.tempPath (MailStore.makeMessagePath syn rootDir
      msg.mailboxUser (MailStore.idAt msg now))) = temp) :
    ∃ t, (MailStore.store syn rootDir msg).Runs (mailPlatform names mayFail).Effect
        (.holding (fun p => if p = temp then some old else none) (fun p => p ≠ temp) now)
        (.ok []) t ∧ t.contents temp = none := by
  let s : Disk FsPath :=
    .holding (fun p => if p = temp then some old else none) (fun p => p ≠ temp) now
  have there : ∀ p, s.present p = true := by
    intro p
    by_cases this : p = temp <;> simp [s, Disk.present, Disk.holding, this]
  let created := s.put temp ⟨[], false, now⟩
  let cut := created.overwrite temp []
  have stored : (MailStore.storeAs syn rootDir msg (MailStore.idAt msg now)).Runs
      (mailPlatform names mayFail).Effect s (.ok []) (cut.clear temp) := by
    refine Prog.runs_map.mpr ⟨.ok false, ?_, rfl⟩
    refine ⟨true, created, congrArg (s.put · _) here.symm, some 0, cut, ⟨Nat.zero_le _, .inr trivial, ?_⟩, ?_⟩
    · rw [List.take_zero]
      exact congrArg (created.overwrite · []) here.symm
    · have short : some 0 ≠ some (MailStore.composed msg (MailStore.idAt msg now)).length := by
        simp [MailStore.composed, ascii]
      dsimp only
      rw [if_pos short]
      exact ⟨(), cut, rfl, true, _, congrArg cut.clear here.symm, rfl, rfl⟩
  refine ⟨cut.clear temp, ?_, by simp [Disk.contents]⟩
  rw [MailStore.store, if_neg user]
  refine Prog.runs_bind.mpr ⟨true, s, ⟨some true, s, ⟨(there _).symm, rfl⟩, rfl, rfl⟩, ?_⟩
  simp only [Bool.not_true, Bool.false_eq_true, if_false]
  split
  · rename_i generated
    refine Prog.runs_bind.mpr ⟨_, s, ⟨s.now, s, ⟨rfl, rfl⟩, rfl, rfl⟩, ?_⟩
    rw [MailStore.idAt_generated generated]
    exact stored
  · rename_i given
    rw [MailStore.idAt_given given now]
    exact stored

end Storage

end EmailServer
