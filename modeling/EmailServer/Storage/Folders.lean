import EmailServer.Library.DurableCalls
import EmailServer.Storage.Durability

/-! # What the mail store is for

An address, a user and an identifier, has an entry in the inbox and one in the quarantine; which
addresses share their entries is up to the file system. The mail store is a map from entries to
messages: whatever fails and wherever the process is killed, the files always show such a map,
and a call does to it what it means or nothing. Users may be paths, so that a directory can lie
where a message is looked for: it is moved with all the messages in it.
-/

namespace EmailServer.Storage

/-! ## Calls and what they mean -/

/-- The files of the identifier are files: no NUL cuts their paths, and no colon makes them streams
    of other files. -/
def CleanId (id : Bytes) : Prop := 0 ∉ id ∧ Bytes.colon ∉ id

instance (id : Bytes) : Decidable (CleanId id) := inferInstanceAs (Decidable (_ ∧ _))

/-- A user and an identifier. -/
structure Address where
  user : Bytes
  id : Bytes
  userClean : 0 ∉ user
  idClean : CleanId id

/-- What lies in the entries. -/
abbrev Folders := FsPath → Option Bytes

inductive MailCall where
  /-- An empty identifier is generated. -/
  | store (msg : StoredMessage) (userClean : 0 ∉ msg.mailboxUser) (idClean : CleanId msg.id)
  | moveToQuarantine (address : Address)
  | deleteMessage (address : Address)
  /-- The constructor. -/
  | recoverOrphanedTempFiles

inductive MailAnswer where
  | stored (result : Except Exn Bytes)
  | done (succeeded : Bool)
  | recovered

/-- The identifier under which the message is stored. -/
def Assigned (msg : StoredMessage) (id : Bytes) : Prop :=
  if msg.id = [] then ∃ millisecond, id = toDecimal millisecond else id = msg.id

section Entries

variable {syn : PathSyntax} (names : Naming syn) (rootDir : Bytes)

/-- The entry of an address in the inbox. -/
def inInbox (user id : Bytes) : FsPath :=
  names.locate (MailStore.makeMessagePath syn rootDir user id)

def inQuarantine (user id : Bytes) : FsPath :=
  names.locate (MailStore.makeQuarantinePath syn rootDir user id)

namespace Folders

variable (folders : Folders)

/-- The message is in the inbox of its user. -/
def Filed (msg : StoredMessage) (id : Bytes) (later : Folders) : Prop :=
  Assigned msg id ∧ later = Function.update folders (inInbox names rootDir msg.mailboxUser id)
    (some (MailStore.composed msg id))

/-- The message of the address is in the quarantine. -/
def Quarantined (a : Address) (later : Folders) : Prop :=
  ∃ content, folders (inInbox names rootDir a.user a.id) = some content ∧
    later = Function.update (Function.update folders (inInbox names rootDir a.user a.id) none)
      (inQuarantine names rootDir a.user a.id) (some content)

/-- There is a directory in the place of the message. It has become one in that of the quarantine,
    with the messages in it. -/
structure Carried (a : Address) (later : Folders) : Prop where
  inbox : folders (inInbox names rootDir a.user a.id) = none
  quarantine : folders (inQuarantine names rootDir a.user a.id) = none
  apart : ¬ (inInbox names rootDir a.user a.id).Contains (inQuarantine names rootDir a.user a.id)
  moved : later = FsPath.relocated (inInbox names rootDir a.user a.id)
    (inQuarantine names rootDir a.user a.id) none folders

def Moved (a : Address) (later : Folders) : Prop :=
  folders.Quarantined names rootDir a later ∨ folders.Carried names rootDir a later

def deleted (a : Address) : Folders :=
  Function.update folders (inInbox names rootDir a.user a.id) none

end Folders

/-- A call does what it means as a whole or not at all. Without failures, `true` and an identifier
    say that it did, and `false` that there was no message to be moved. -/
def mailMeaning (reliable : Prop) : Meaning MailCall MailAnswer Folders
  | .store _ _ _, folders, .stored (.ok []), later => later = folders
  | .store msg _ _, folders, .stored (.ok id), later => folders.Filed names rootDir msg id later
  | .store msg _ _, folders, .stored (.error _), later =>
      ¬ reliable ∧ ∃ id, folders.Filed names rootDir msg id later
  | .moveToQuarantine a, folders, .done true, later => folders.Moved names rootDir a later
  | .moveToQuarantine a, folders, .done false, later =>
      later = folders ∧ (reliable → folders (inInbox names rootDir a.user a.id) = none) ∨
        ¬ reliable ∧ folders.Moved names rootDir a later
  | .deleteMessage a, folders, .done true, later => later = folders.deleted names rootDir a
  | .deleteMessage a, folders, .done false, later =>
      ¬ reliable ∧ (later = folders ∨ later = folders.deleted names rootDir a)
  | .recoverOrphanedTempFiles, folders, .recovered, later => later = folders
  | _, _, _, _ => False

/-! ## The files behind them -/

/-- The file has this content, which has reached the disk. -/
structure Shown (s : Disk FsPath) (p : FsPath) (content : Option Bytes) : Prop where
  contents : s.contents p = content
  synced : ∀ f, s.files p = some f → f.synced = true

/-- The files of messages show these folders. -/
def Shows (s : Disk FsPath) (folders : Folders) : Prop := ∀ p, IsEml p → Shown s p (folders p)

variable (syn) in
def MailCall.program : MailCall → StoreProg MailAnswer
  | .store msg _ _ => (MailStore.store syn rootDir msg).map .stored
  | .moveToQuarantine a => (MailStore.moveToQuarantine syn rootDir a.user a.id).map .done
  | .deleteMessage a => (MailStore.deleteMessage syn rootDir a.user a.id).map .done
  | .recoverOrphanedTempFiles =>
      (MailStore.recoverOrphanedTempFiles syn rootDir).map fun _ => .recovered

/-- A directory moves with all that is in it, to a place where there is nothing. -/
structure MovesDirectory (s : Disk FsPath) (src dst : FsPath) (t : Disk FsPath) : Prop where
  noFile : s.files src = none
  directory : s.dirs src = true
  free : s.present dst = false
  apart : ¬ src.Contains dst
  moved : t = { s with
    files := src.relocated dst none s.files
    dirs := src.relocated dst false s.dirs }

/-- `rename` and `remove` take directories for files; only an empty one can be removed. -/
def folderEffect (fails : FsOp FsPath FsPath → Prop) :
    Sem (FsOp FsPath FsPath) FsOp.Res (Disk FsPath)
  | .rename src dst, s, ok, t =>
      (mailPlatform names fails).Effect (.rename src dst) s ok t ∨
        ok = true ∧ MovesDirectory s (names.locate src) (names.locate dst) t
  | .remove p, s, removed, t =>
      (mailPlatform names fails).Effect (.remove p) s removed t ∨
        removed = some true ∧ s.files (names.locate p) = none ∧
          t = { s with dirs := Function.update s.dirs (names.locate p) false }
  | op, s, r, t => (mailPlatform names fails).Effect op s r t

/-- Between the calls, the rest of the program leaves the messages alone. -/
def mailSystem (fails : FsOp FsPath FsPath → Prop) :
    CallSystem MailCall MailAnswer (FsOp FsPath FsPath) FsOp.Res (Disk FsPath) where
  program := MailCall.program syn rootDir
  sem := folderEffect names fails
  crash := Disk.Crash
  idle s t := ∀ p, IsEml p → t.files p = s.files p

end Entries

/-! ## The refinement -/

section Refinement

variable {syn : PathSyntax} {names : Naming syn} {rootDir : Bytes}
  {fails : FsOp FsPath FsPath → Prop} {s t : Disk FsPath} {folders : Folders} {a : Address}
  {p entry : FsPath} {content : Option Bytes}

theorem Shown.congr {q : FsPath} (shown : Shown s q content) (same : t.files p = s.files q) :
    Shown t p content where
  contents := by
    rw [Disk.contents, same]
    exact shown.contents
  synced f found := shown.synced f (same ▸ found)

theorem Shows.congr (shows : Shows s folders) (same : ∀ p, IsEml p → t.files p = s.files p) :
    Shows t folders :=
  fun p eml => (shows p eml).congr (same p eml)

theorem Shows.update (shows : Shows s folders) (here : Shown t entry content)
    (others : ∀ p, IsEml p → p ≠ entry → t.files p = s.files p) :
    Shows t (Function.update folders entry content) := by
  intro p eml
  by_cases same : p = entry
  · subst same
    rw [Function.update_self]
    exact here
  · rw [Function.update_of_ne same]
    exact (shows p eml).congr (others p eml same)

theorem makeMessagePath_nulFree (root : 0 ∉ rootDir) {user id : Bytes} (userClean : 0 ∉ user)
    (idClean : 0 ∉ id) : (MailStore.makeMessagePath syn rootDir user id).NulFree := by
  have eml : 0 ∉ id ++ ascii ".eml" := List.not_mem_append idClean (by decide)
  have inbox : 0 ∉ ascii "INBOX" := by decide
  exact syn.append_nulFree (syn.append_nulFree (syn.append_nulFree (syn.parse_nulFree root)
    (syn.parse_nulFree userClean)) (syn.parse_nulFree inbox)) (syn.parse_nulFree eml)

theorem inInbox_isEml (root : 0 ∉ rootDir) (a : Address) :
    IsEml (inInbox names rootDir a.user a.id) :=
  MailStore.locate_isEml (makeMessagePath_nulFree root a.userClean a.idClean.1)
    (MailStore.makeMessagePath_isEml ..)

theorem inQuarantine_isEml (root : 0 ∉ rootDir) (a : Address) :
    IsEml (inQuarantine names rootDir a.user a.id) := by
  have eml : 0 ∉ a.id ++ ascii ".eml" := List.not_mem_append a.idClean.1 (by decide)
  have quarantine : 0 ∉ ascii "Quarantine" := by decide
  refine MailStore.locate_isEml (syn.append_nulFree (syn.append_nulFree (syn.append_nulFree
    (syn.parse_nulFree root) (syn.parse_nulFree a.userClean)) (syn.parse_nulFree quarantine))
    (syn.parse_nulFree eml)) ?_
  exact syn.append_ending _ a.id (by decide) (by decide)

theorem Shows.deleted (shows : Shows s folders) :
    Shows (s.clear (inInbox names rootDir a.user a.id)) (folders.deleted names rootDir a) := by
  apply shows.update
  · exact ⟨by simp [Disk.contents], by simp⟩
  · intro p _ other
    simp [other]

theorem Shows.moved (root : 0 ∉ rootDir) (shows : Shows s folders)
    (moves : (mailPlatform names fails).Moves s (MailStore.makeMessagePath syn rootDir a.user a.id)
      (MailStore.makeQuarantinePath syn rootDir a.user a.id) t) :
    ∃ later, folders.Quarantined names rootDir a later ∧ Shows t later := by
  obtain ⟨f, found, rfl⟩ := moves
  change s.files (inInbox names rootDir a.user a.id) = some f at found
  have inbox := shows _ (@inInbox_isEml _ names _ root a)
  have there : folders (inInbox names rootDir a.user a.id) = some f.data := by
    rw [← inbox.contents, Disk.contents, found]
    rfl
  refine ⟨_, ⟨f.data, there, rfl⟩, (@Shows.deleted _ names _ _ _ a shows).update ⟨?_, ?_⟩ ?_⟩
  · simp [Disk.contents, inQuarantine, mailPlatform]
  · intro g found'
    obtain rfl : f = g := by simpa [inQuarantine, mailPlatform] using found'
    exact inbox.synced f found
  · intro p _ other
    exact Function.update_of_ne other _ _

theorem Shows.carried (root : 0 ∉ rootDir) (shows : Shows s folders)
    (moves : MovesDirectory s (inInbox names rootDir a.user a.id)
      (inQuarantine names rootDir a.user a.id) t) :
    ∃ later, folders.Carried names rootDir a later ∧ Shows t later := by
  have inbox := @inInbox_isEml _ names _ root a
  have absent : s.files (inQuarantine names rootDir a.user a.id) = none := by
    simpa using (Bool.or_eq_false_iff.mp moves.free).1
  refine ⟨_, ⟨?_, ?_, moves.apart, rfl⟩, fun p eml => ?_⟩
  · rw [← (shows _ inbox).contents, Disk.contents, moves.noFile]
    rfl
  · rw [← (shows _ (inQuarantine_isEml root a)).contents, Disk.contents, absent]
    rfl
  · rw [moves.moved]
    by_cases inside : (inQuarantine names rootDir a.user a.id).Contains p
    · rw [FsPath.relocated_origin inside]
      exact (shows _ (FsPath.origin_lastName inside inbox eml)).congr (FsPath.relocated_origin inside)
    by_cases gone : (inInbox names rootDir a.user a.id).Contains p
    · rw [FsPath.relocated_gone inside gone]
      have nothing := @FsPath.relocated_gone _ _ _ _ none s.files inside gone
      refine ⟨congrArg (Option.map File.data) nothing, fun f found => ?_⟩
      cases nothing.symm.trans found
    · rw [FsPath.relocated_other inside gone]
      exact (shows p eml).congr (FsPath.relocated_other inside gone)

theorem createDirectories_files {created : Bool}
    (effect : (mailPlatform names fails).Effect (.createDirectories p) s created t) :
    t.files = s.files := by
  funext q
  exact Platform.effect_frame effect (by simp [FsOp.writes])

/-- What the mail store means where it may fail. -/
abbrev meaningOf (names : Naming syn) (rootDir : Bytes) (fails : FsOp FsPath FsPath → Prop) :
    Meaning MailCall MailAnswer Folders :=
  mailMeaning names rootDir (∀ op, ¬ fails op)

theorem moveToQuarantine_guards (root : 0 ∉ rootDir) (shows : Shows s folders) :
    (MailStore.moveToQuarantine syn rootDir a.user a.id).Guards (folderEffect names fails)
      ((meaningOf names rootDir fails).Within Shows (.moveToQuarantine a) folders)
      (fun moved => (meaningOf names rootDir fails).Ends Shows (.moveToQuarantine a) folders
        (.done moved)) s := by
  refine ⟨.before shows, fun created mid creation => ?_⟩
  have same := createDirectories_files creation
  have shows' : Shows mid folders := shows.congr fun p _ => by rw [same]
  cases created with
  | false =>
      obtain ⟨failed, -⟩ := creation
      exact ⟨.before shows', folders, .inl ⟨rfl, fun reliable => absurd failed (reliable _)⟩, shows'⟩
  | true =>
  refine ⟨.before shows', fun moved u moving => ?_⟩
  cases moved with
  | false =>
      obtain ⟨refused, rfl⟩ := moving.resolve_right (by simp)
      refine ⟨.before shows', folders, .inl ⟨rfl, fun reliable => ?_⟩, shows'⟩
      have absent : u.files (inInbox names rootDir a.user a.id) = none :=
        refused.resolve_left (reliable _)
      rw [← (shows' _ (inInbox_isEml root a)).contents, Disk.contents, absent]
      rfl
  | true =>
      obtain ⟨later, means, shown⟩ : ∃ later, folders.Moved names rootDir a later ∧ Shows u later := by
        rcases moving with moves | ⟨-, moves⟩
        · obtain ⟨later, quarantined, shown⟩ := shows'.moved root moves
          exact ⟨later, .inl quarantined, shown⟩
        · obtain ⟨later, carried, shown⟩ := shows'.carried root moves
          exact ⟨later, .inr carried, shown⟩
      have whole : meaningOf names rootDir fails (.moveToQuarantine a) folders (.done true) later :=
        means
      refine ⟨.after whole shown, fun logged v logging => ?_⟩
      obtain ⟨failed, rfl⟩ := logging
      cases logged with
      | true => exact ⟨.after whole shown, later, whole, shown⟩
      | false =>
          have unreliable : ¬ ∀ op, ¬ fails op := fun reliable => reliable _ (failed rfl)
          exact ⟨.after whole shown, later, .inr ⟨unreliable, means⟩, shown⟩

theorem deleteMessage_guards (root : 0 ∉ rootDir) (shows : Shows s folders) :
    (MailStore.deleteMessage syn rootDir a.user a.id).Guards (folderEffect names fails)
      ((meaningOf names rootDir fails).Within Shows (.deleteMessage a) folders)
      (fun removed => (meaningOf names rootDir fails).Ends Shows (.deleteMessage a) folders
        (.done removed)) s := by
  refine ⟨.before shows, fun removed t removal => ?_⟩
  cases removed with
  | none =>
      obtain ⟨failed, rfl⟩ := removal.resolve_right (by simp)
      exact ⟨.before shows, folders, ⟨fun reliable => reliable _ failed, .inl rfl⟩, shows⟩
  | some removed =>
      have means : meaningOf names rootDir fails (.deleteMessage a) folders (.done true)
          (folders.deleted names rootDir a) := rfl
      have shown : Shows t (folders.deleted names rootDir a) := by
        rcases removal with ⟨-, rfl⟩ | ⟨-, noFile, rfl⟩
        · exact @Shows.deleted _ names rootDir _ _ a shows
        · -- an empty directory, where there was no message
          have inbox := shows _ (@inInbox_isEml _ names _ root a)
          have absent : folders (inInbox names rootDir a.user a.id) = none := by
            rw [← inbox.contents, Disk.contents]
            exact congrArg _ noFile
          rw [Folders.deleted, ← absent, Function.update_eq_self]
          exact shows.congr fun _ _ => rfl
      refine ⟨.after means shown, fun logged v logging => ?_⟩
      obtain ⟨failed, rfl⟩ := logging
      cases logged with
      | true => exact ⟨.after means shown, _, means, shown⟩
      | false =>
          have unreliable : ¬ ∀ op, ¬ fails op := fun reliable => reliable _ (failed rfl)
          exact ⟨.after means shown, _, ⟨unreliable, .inr rfl⟩, shown⟩

theorem store_shown {msg : StoredMessage} (shows : Shows s folders)
    (apart : ¬ IsEml (names.locate (MailStore.tempPath (messagePath syn rootDir msg s))))
    (replaced : AtomicWrite.Replaced (mailPlatform names fails)
      (MailStore.tempPath (messagePath syn rootDir msg s)) (messagePath syn rootDir msg s)
      (messageContent msg s) s t) :
    ∃ later, folders.Filed names rootDir msg (MailStore.idAt msg s.now) later ∧ Shows t later := by
  refine ⟨_, ⟨?_, rfl⟩, ?_⟩
  · unfold Assigned MailStore.idAt
    split
    · exact ⟨_, rfl⟩
    · rfl
  · obtain ⟨f, there, data, synced⟩ := replaced.whole
    change t.files (inInbox names rootDir msg.mailboxUser (MailStore.idAt msg s.now)) = some f at there
    apply shows.update
    · refine ⟨?_, fun g found => ?_⟩
      · rw [Disk.contents, there, Option.map_some, data]
        rfl
      · rw [there] at found
        cases found
        exact synced
    · intro p eml other
      refine replaced.others p ?_ other
      rintro rfl
      exact apart eml

theorem folderEffect_of_effect {op : FsOp FsPath FsPath} {r : op.Res}
    (effect : (mailPlatform names fails).Effect op s r t) : folderEffect names fails op s r t := by
  cases op with
  | rename | remove => exact .inl effect
  | _ => exact effect

variable (names) in
/-- The operation neither moves nor removes directories. -/
def OnFiles (op : FsOp FsPath FsPath) : Prop :=
  ∀ (fails : FsOp FsPath FsPath → Prop) s r t,
    folderEffect names fails op s r t → (mailPlatform names fails).Effect op s r t

theorem atomicWriteFile_onFiles (temp path : FsPath) (data : Bytes) :
    (AtomicWrite.atomicWriteFile temp path data : StoreProg (Except Exn Bool)).Uses
      (OnFiles names) := by
  have discards : (AtomicWrite.discard temp : StoreProg (Except Exn Bool)).Uses
      (OnFiles names) := ⟨fun _ _ _ _ => id, fun _ => trivial⟩
  have abandons : (AtomicWrite.abandon temp : StoreProg (Except Exn Bool)).Uses
      (OnFiles names) := ⟨fun _ _ _ _ => id, fun _ => discards⟩
  have verifies : (AtomicWrite.verify path : StoreProg (Except Exn Bool)).Uses
      (OnFiles names) := ⟨fun _ _ _ _ => id, fun found => by cases found <;> trivial⟩
  refine ⟨fun _ _ _ _ => id, fun created => ?_⟩
  cases created with
  | false => trivial
  | true =>
  refine ⟨fun _ _ _ _ => id, fun written => ?_⟩
  dsimp only
  split
  · exact abandons
  refine ⟨fun _ _ _ _ => id, fun flushed => ?_⟩
  cases flushed with
  | false => exact abandons
  | true =>
  refine ⟨fun _ _ _ _ => id, fun _ => ⟨fun _ _ _ _ => id, fun moved => ?_⟩⟩
  cases moved with
  | false => exact discards
  | true => exact verifies

theorem store_onFiles (msg : StoredMessage) :
    (MailStore.store syn rootDir msg).Uses (OnFiles names) := by
  have writes : ∀ id, (MailStore.storeAs syn rootDir msg id).Uses (OnFiles names) :=
    fun id => (atomicWriteFile_onFiles _ _ _).bind fun _ => trivial
  have ensures : ∀ dir, (MailStore.ensureDirExists dir).Uses (OnFiles names) := by
    intro dir
    refine ⟨fun _ _ _ _ => id, fun found => ?_⟩
    match found with
    | none | some true => trivial
    | some false => exact ⟨fun _ _ _ _ => id, fun _ => trivial⟩
  unfold MailStore.store
  split
  · trivial
  refine (ensures _).bind fun ensured => ?_
  split
  · trivial
  split
  · exact ⟨fun _ _ _ _ => id, fun _ => writes _⟩
  · exact writes _

theorem store_guards_folders (root : 0 ∉ rootDir) {msg : StoredMessage}
    (userClean : 0 ∉ msg.mailboxUser) (idClean : CleanId msg.id) (shows : Shows s folders) :
    (MailStore.store syn rootDir msg).Guards (folderEffect names fails)
      ((meaningOf names rootDir fails).Within Shows (.store msg userClean idClean) folders)
      (fun result => (meaningOf names rootDir fails).Ends Shows (.store msg userClean idClean)
        folders (.stored result)) s := by
  have apart : ¬ IsEml (names.locate (MailStore.tempPath (messagePath syn rootDir msg s))) :=
    MailStore.tempPath_not_eml (makeMessagePath_nulFree root userClean
      (MailStore.idAt_clean idClean.1 s.now))
  have kept : ∀ {t}, AtomicWrite.Kept (mailPlatform names fails)
      (MailStore.tempPath (messagePath syn rootDir msg s)) s t → Shows t folders := by
    intro t kept
    refine shows.congr fun p eml => kept p ?_
    rintro rfl
    exact apart eml
  refine ((store_onFiles msg).weaken fun op onFiles => onFiles fails).guards
    ((store_guards s).imp (fun t torn => ?_) (fun result t outcome => ?_))
  · rcases torn with unchanged | replaced
    · exact .before (kept unchanged)
    · obtain ⟨later, filed, shown⟩ := store_shown shows apart replaced
      obtain ⟨b, rest, same⟩ := List.exists_cons_of_ne_nil (MailStore.idAt_ne_nil msg s.now)
      rw [same] at filed
      have means : meaningOf names rootDir fails (.store msg userClean idClean) folders
          (.stored (.ok (b :: rest))) later := filed
      exact .after means shown
  · match result with
    | .ok [] => exact ⟨folders, rfl, kept outcome.1.1⟩
    | .ok (b :: rest) =>
        obtain ⟨later, filed, shown⟩ := store_shown shows apart outcome.1.1
        rw [← outcome.2 (List.cons_ne_nil _ _)] at filed
        exact ⟨later, filed, shown⟩
    | .error _ =>
        obtain ⟨later, filed, shown⟩ := store_shown shows apart outcome.1
        exact ⟨later, ⟨fun reliable => reliable _ outcome.2, _, filed⟩, shown⟩

theorem removeOrphans_guards {entries : List FsPath} (places : ∀ e ∈ entries, names.locate e = e)
    (shows : Shows s folders) :
    (MailStore.removeOrphans entries).Guards (folderEffect names fails)
      (fun t => Shows t folders) (fun _ t => Shows t folders) s := by
  induction entries generalizing s with
  | nil => exact ⟨shows, shows⟩
  | cons entry rest ih =>
      obtain ⟨here, later⟩ := List.forall_mem_cons.mp places
      unfold MailStore.removeOrphans
      split
      · rename_i temp
        refine ⟨shows, fun removed t removal => ih later (shows.congr fun p eml => ?_)⟩
        rcases removal with removal | ⟨-, -, rfl⟩
        · apply Platform.effect_frame removal
          intro q member
          obtain rfl := List.mem_singleton.mp member
          change p ≠ names.locate q
          rw [here]
          rintro rfl
          exact not_eml_of_temp temp eml
        · rfl
      · exact ih later shows

theorem recoverOrphanedTempFiles_guards (shows : Shows s folders) :
    (MailStore.recoverOrphanedTempFiles syn rootDir).Guards (folderEffect names fails)
      (fun t => Shows t folders) (fun _ t => Shows t folders) s := by
  refine ⟨shows, fun entries t scan => ?_⟩
  cases entries with
  | none =>
      obtain ⟨-, rfl⟩ := scan
      exact ⟨shows, shows⟩
  | some entries =>
      obtain ⟨reported, rfl⟩ := scan
      exact removeOrphans_guards (fun e member => ((reported e).mp member).1.locate) shows

/-- The mail store does to the folders what its calls mean. -/
theorem mailSystem_refines (root : 0 ∉ rootDir) : (mailSystem names rootDir fails).Refines
    (meaningOf names rootDir fails) Shows where
  call call s folders shows := by
    cases call with
    | store msg userClean idClean =>
        exact (store_guards_folders root userClean idClean shows).map fun _ _ ended => ended
    | moveToQuarantine a => exact (moveToQuarantine_guards root shows).map fun _ _ ended => ended
    | deleteMessage a => exact (deleteMessage_guards root shows).map fun _ _ ended => ended
    | recoverOrphanedTempFiles =>
        refine Prog.Guards.map ((recoverOrphanedTempFiles_guards shows).mono fun t => .before) ?_
        exact fun _ t shown => ⟨folders, rfl, shown⟩
  crash s t folders shows crash := by
    intro p eml
    refine (shows p eml).congr ?_
    cases found : s.files p with
    | none => exact crash.absent _ found
    | some f => exact crash.synced _ f found ((shows p eml).synced f found)
  idle s t folders shows idle := shows.congr idle

end Refinement

end EmailServer.Storage
