import EmailServer.Storage.Folders
import EmailServer.Storage.Overwrite

/-! # What becomes of accepted messages

The folders say what runs of the mail store do: a message that was accepted stays in its entry,
or is in the quarantine once it has been moved there, until another call gets at one of the two
entries, or at a directory that they are in. Failures, crashes, restarts and the messages of
others do not matter.
-/

namespace EmailServer.Storage

open CallSystem (Alike)

section Calls

variable {syn : PathSyntax} (names : Naming syn) (rootDir : Bytes)

/-- The call may change the entry. -/
def MailCall.GetsAt (entry : FsPath) : MailCall → MailAnswer → Prop
  | .store msg _ _, .stored (.ok id) => id ≠ [] ∧ entry = inInbox names rootDir msg.mailboxUser id
  | .store msg _ _, .stored (.error _) =>
      ∃ id, Assigned msg id ∧ entry = inInbox names rootDir msg.mailboxUser id
  | .moveToQuarantine a, .done _ =>
      (inInbox names rootDir a.user a.id).Contains entry ∨
        (inQuarantine names rootDir a.user a.id).Contains entry
  | .deleteMessage a, .done _ => entry = inInbox names rootDir a.user a.id
  | _, _ => False

/-- The call may move the message at the address. -/
def MailCall.Moves (a : Address) : MailCall → MailAnswer → Prop
  | .moveToQuarantine b, .done _ =>
      inInbox names rootDir b.user b.id = inInbox names rootDir a.user a.id ∧
        inQuarantine names rootDir b.user b.id = inQuarantine names rootDir a.user a.id
  | _, _ => False

/-- The call may do something else to the entries of the address: put another message there,
    or take away the one that is there. -/
def MailCall.Replaces (a : Address) (call : MailCall) (answer : MailAnswer) : Prop :=
  (call.GetsAt names rootDir (inInbox names rootDir a.user a.id) answer ∨
      call.GetsAt names rootDir (inQuarantine names rootDir a.user a.id) answer) ∧
    ¬ call.Moves names rootDir a answer

/-- A call that is cut off may have done what it does with any answer. -/
def MayDo (does : MailCall → MailAnswer → Prop) : CallEvent MailCall MailAnswer → Prop
  | .returned call answer => does call answer
  | .cutOff call => ∃ answer, does call answer
  | .idle => False

theorem MayDo.or {does does' : MailCall → MailAnswer → Prop}
    {event : CallEvent MailCall MailAnswer} :
    MayDo (fun call answer => does call answer ∨ does' call answer) event ↔
      MayDo does event ∨ MayDo does' event := by
  cases event with
  | returned => rfl
  | cutOff => exact exists_or
  | idle => exact or_self_iff.symm

/-- The content is in the inbox, or else in the quarantine. -/
def Folders.Keeps (folders : Folders) (a : Address) (content : Bytes) : Prop :=
  folders (inInbox names rootDir a.user a.id) = some content ∨
    folders (inInbox names rootDir a.user a.id) = none ∧
      folders (inQuarantine names rootDir a.user a.id) = some content

end Calls

section Steps

variable {syn : PathSyntax} {names : Naming syn} {rootDir : Bytes} {reliable : Prop}
  {folders later : Folders} {a b : Address} {content : Bytes} {entry : FsPath}
  {call : MailCall} {answer : MailAnswer} {event : CallEvent MailCall MailAnswer}

theorem Folders.Moved.frame (moved : folders.Moved names rootDir b later)
    (inbox : ¬ (inInbox names rootDir b.user b.id).Contains entry)
    (quarantine : ¬ (inQuarantine names rootDir b.user b.id).Contains entry) :
    later entry = folders entry := by
  have apart : ∀ {p : FsPath}, ¬ p.Contains entry → entry ≠ p := by
    rintro p outside rfl
    exact outside entry.contains_refl
  rcases moved with ⟨content, -, rfl⟩ | carried
  · rw [Function.update_of_ne (apart quarantine), Function.update_of_ne (apart inbox)]
  · rw [carried.moved, FsPath.relocated_other quarantine inbox]

theorem Folders.deleted_frame (inbox : entry ≠ inInbox names rootDir b.user b.id) :
    folders.deleted names rootDir b entry = folders entry := Function.update_of_ne inbox _ _

/-- The entries that a call can change. -/
theorem mailMeaning_frame (means : mailMeaning names rootDir reliable call folders answer later)
    (spared : ¬ call.GetsAt names rootDir entry answer) : later entry = folders entry := by
  match call, answer with
  | .store _ _ _, .stored (.ok []) => rw [show later = folders from means]
  | .store msg _ _, .stored (.ok (c :: id)) =>
      obtain ⟨-, rfl⟩ := means
      exact Function.update_of_ne (fun here => spared ⟨List.cons_ne_nil _ _, here⟩) _ _
  | .store msg _ _, .stored (.error _) =>
      obtain ⟨-, id, assigned, rfl⟩ := means
      exact Function.update_of_ne (fun here => spared ⟨id, assigned, here⟩) _ _
  | .moveToQuarantine b, .done true =>
      obtain ⟨inbox, quarantine⟩ := not_or.mp spared
      exact Folders.Moved.frame means inbox quarantine
  | .moveToQuarantine b, .done false =>
      obtain ⟨inbox, quarantine⟩ := not_or.mp spared
      rcases means with ⟨rfl, -⟩ | ⟨-, moved⟩
      · rfl
      · exact moved.frame inbox quarantine
  | .deleteMessage b, .done true =>
      obtain rfl := show later = folders.deleted names rootDir b from means
      exact Folders.deleted_frame spared
  | .deleteMessage b, .done false =>
      obtain ⟨-, rfl | rfl⟩ := means
      · rfl
      · exact Folders.deleted_frame spared
  | .recoverOrphanedTempFiles, .recovered => rw [show later = folders from means]

theorem Folders.Moved.keeps (moved : folders.Moved names rootDir b later)
    (inbox : inInbox names rootDir b.user b.id = inInbox names rootDir a.user a.id)
    (quarantine : inQuarantine names rootDir b.user b.id = inQuarantine names rootDir a.user a.id)
    (keeps : folders.Keeps names rootDir a content) : later.Keeps names rootDir a content := by
  rcases moved with ⟨moved, there, rfl⟩ | carried
  case inr =>
    -- then there is no message to be moved
    have nothing := carried.inbox
    have empty := carried.quarantine
    rw [inbox] at nothing
    rw [quarantine] at empty
    unfold Folders.Keeps at keeps
    simp [nothing, empty] at keeps
  rw [inbox] at there
  rw [inbox, quarantine]
  rcases keeps with here | ⟨absent, -⟩
  · obtain rfl : moved = content := Option.some.inj (there.symm.trans here)
    by_cases same : inInbox names rootDir a.user a.id = inQuarantine names rootDir a.user a.id
    · left
      rw [same, Function.update_self]
    · right
      rw [Function.update_of_ne same, Function.update_self, Function.update_self]
      exact ⟨rfl, rfl⟩
  · rw [absent] at there
    cases there

theorem mailMeaning_moves (means : mailMeaning names rootDir reliable call folders answer later)
    (moves : call.Moves names rootDir a answer) (keeps : folders.Keeps names rootDir a content) :
    later.Keeps names rootDir a content := by
  match call, answer with
  | .moveToQuarantine b, .done true =>
      exact Folders.Moved.keeps means moves.1 moves.2 keeps
  | .moveToQuarantine b, .done false =>
      rcases means with ⟨rfl, -⟩ | ⟨-, moved⟩
      · exact keeps
      · exact moved.keeps moves.1 moves.2 keeps

theorem mailMeaning_keeps (means : mailMeaning names rootDir reliable call folders answer later)
    (kept : ¬ call.Replaces names rootDir a answer) (keeps : folders.Keeps names rootDir a content) :
    later.Keeps names rootDir a content := by
  by_cases moves : call.Moves names rootDir a answer
  · exact mailMeaning_moves means moves keeps
  · obtain ⟨inbox, quarantine⟩ := not_or.mp fun gets => kept ⟨gets, moves⟩
    unfold Folders.Keeps
    rw [mailMeaning_frame means inbox, mailMeaning_frame means quarantine]
    exact keeps

theorem event_preserves {P : Folders → Prop} {does : MailCall → MailAnswer → Prop}
    (preserves : ∀ call answer later, mailMeaning names rootDir reliable call folders answer later →
      ¬ does call answer → P later)
    (step : (mailMeaning names rootDir reliable).Step folders event later)
    (kept : ¬ MayDo does event) (before : P folders) : P later := by
  cases event with
  | returned call answer => exact preserves call answer later step kept
  | cutOff call =>
      rcases step with rfl | ⟨answer, means⟩
      · exact before
      · exact preserves call answer later means fun may => kept ⟨answer, may⟩
  | idle => exact (show later = folders from step) ▸ before

end Steps

section Runs

variable {syn : PathSyntax} {names : Naming syn} {rootDir : Bytes} {reliable : Prop}
  {folders later : Folders} {a : Address} {content : Bytes}
  {since : List (Taken (CallEvent MailCall MailAnswer) Folders)}

theorem run_preserves {P : Folders → Prop} {does : MailCall → MailAnswer → Prop}
    (preserves : ∀ folders call answer later, P folders →
      mailMeaning names rootDir reliable call folders answer later → ¬ does call answer → P later)
    (trace : Trace (mailMeaning names rootDir reliable).Step folders since later)
    (spared : ∀ y ∈ since, ¬ MayDo does y.label) (before : P folders) : P later := by
  induction trace with
  | nil => exact before
  | snoc _ step ih =>
      obtain ⟨earlier, here⟩ := List.forall_mem_append.mp spared
      have met := ih earlier
      exact event_preserves (fun call answer later => preserves _ call answer later met) step
        (here _ (.head _)) met

/-- A message is kept until it is replaced. -/
theorem run_keeps (trace : Trace (mailMeaning names rootDir reliable).Step folders since later)
    (spared : ∀ y ∈ since, ¬ MayDo (MailCall.Replaces names rootDir a) y.label)
    (keeps : folders.Keeps names rootDir a content) : later.Keeps names rootDir a content :=
  run_preserves (fun _ _ _ _ keeps means kept => mailMeaning_keeps means kept keeps) trace spared
    keeps

/-- It stays where it is until it is moved or replaced. -/
theorem run_stays (trace : Trace (mailMeaning names rootDir reliable).Step folders since later)
    (spared : ∀ y ∈ since, ¬ MayDo (fun call answer =>
      call.Replaces names rootDir a answer ∨ call.Moves names rootDir a answer) y.label)
    (there : folders (inInbox names rootDir a.user a.id) = some content) :
    later (inInbox names rootDir a.user a.id) = some content := by
  refine run_preserves (P := fun folders => folders (inInbox names rootDir a.user a.id) = some content)
    ?_ trace spared there
  intro folders call answer later there means kept
  obtain ⟨replaces, moves⟩ := not_or.mp kept
  rw [mailMeaning_frame means fun gets => replaces ⟨.inl gets, moves⟩, there]

end Runs

/-! ## The runs of the mail store -/

section Files

variable {syn : PathSyntax} {names : Naming syn} {rootDir : Bytes}
  {fails : FsOp FsPath FsPath → Prop} {s t : Disk FsPath} {folders : Folders} {a : Address}
  {content : Bytes}

/-- Whatever happens in a run of the mail store, it is a run of the folders, and the files
    show them all the time. -/
theorem mail_store_history {past : List (Taken (CallEvent MailCall MailAnswer) (Disk FsPath))}
    (root : 0 ∉ rootDir) (shows : Shows s folders)
    (trace : Trace (mailSystem names rootDir fails).Step s past t) :
    ∃ past' later, Trace (mailMeaning names rootDir (∀ op, ¬ fails op)).Step folders past' later ∧
      Alike Shows past past' ∧ Shows t later :=
  (mailSystem_refines root).history shows trace

/-- The file of the inbox holds the content, or else the file of the quarantine does. -/
def KeptFor (names : Naming syn) (rootDir : Bytes) (t : Disk FsPath) (a : Address)
    (content : Bytes) : Prop :=
  t.contents (inInbox names rootDir a.user a.id) = some content ∨
    t.contents (inInbox names rootDir a.user a.id) = none ∧
      t.contents (inQuarantine names rootDir a.user a.id) = some content

theorem Shows.keeps (root : 0 ∉ rootDir) (shows : Shows t folders) :
    KeptFor names rootDir t a content ↔ folders.Keeps names rootDir a content := by
  rw [KeptFor, (shows _ (inInbox_isEml root a)).contents,
    (shows _ (inQuarantine_isEml root a)).contents, Folders.Keeps]

theorem store_filed {msg : StoredMessage} {userClean : 0 ∉ msg.mailboxUser}
    {idClean : CleanId msg.id} {later : Folders} {reliable : Prop} (nonempty : a.id ≠ [])
    (user : a.user = msg.mailboxUser)
    (means : mailMeaning names rootDir reliable (.store msg userClean idClean) folders
      (.stored (.ok a.id)) later) :
    later (inInbox names rootDir a.user a.id) = some (MailStore.composed msg a.id) := by
  obtain ⟨b, rest, same⟩ := List.exists_cons_of_ne_nil nonempty
  rw [same] at means
  obtain ⟨-, rfl⟩ := means
  rw [user, same, Function.update_self]

/-- In every run: a message whose call was answered with an identifier is in a file of the user's
    inbox under it, or in one of the quarantine, until a call gets at one of the two otherwise
    than by moving it. As long as it is not moved either, it is in the inbox. -/
theorem accepted_message_kept {msg : StoredMessage} {userClean : 0 ∉ msg.mailboxUser}
    {idClean : CleanId msg.id}
    {earlier since : List (Taken (CallEvent MailCall MailAnswer) (Disk FsPath))}
    {before after : Disk FsPath} (root : 0 ∉ rootDir) (shows : Shows s folders)
    (trace : Trace (mailSystem names rootDir fails).Step s (earlier ++
      ⟨.returned (.store msg userClean idClean) (.stored (.ok a.id)), before, after⟩ :: since) t)
    (accepted : a.id ≠ []) (user : a.user = msg.mailboxUser)
    (spared : ∀ y ∈ since, ¬ MayDo (MailCall.Replaces names rootDir a) y.label) :
    KeptFor names rootDir t a (MailStore.composed msg a.id) ∧
      ((∀ y ∈ since, ¬ MayDo (MailCall.Moves names rootDir a) y.label) →
        t.contents (inInbox names rootDir a.user a.id) = some (MailStore.composed msg a.id)) := by
  have refines := @mailSystem_refines _ names _ fails root
  obtain ⟨first, step, rest⟩ := trace.split
  obtain ⟨_, beforehand, -, -, shown⟩ := refines.history shows first
  obtain ⟨stored, means, shown⟩ := refines.step shown step
  obtain ⟨since', later, abstract, alike, shows⟩ := refines.history shown rest
  have there := store_filed accepted user means
  have labels : ∀ {does : CallEvent MailCall MailAnswer → Prop},
      (∀ y ∈ since, ¬ does y.label) → ∀ y ∈ since', ¬ does y.label := by
    intro does none_ y member
    obtain ⟨x, met, same⟩ : ∃ x ∈ since, x.label = y.label := by
      rw [← List.mem_map, alike.labels]
      exact List.mem_map_of_mem member
    rw [← same]
    exact none_ x met
  constructor
  · exact (shows.keeps root).mpr (run_keeps abstract (labels spared) (.inl there))
  · intro still
    rw [(shows _ (inInbox_isEml root a)).contents]
    refine run_stays abstract (fun y member => ?_) there
    exact MayDo.or.not.mpr (not_or.mpr ⟨labels spared y member, labels still y member⟩)

end Files

/-! ## A message that is moved -/

theorem moveToQuarantine_runs {syn : PathSyntax} {names : Naming syn} {rootDir : Bytes} {a : Address}
    {s : Disk FsPath} {f : File} (found : s.files (inInbox names rootDir a.user a.id) = some f) :
    ∃ t, (MailStore.moveToQuarantine syn rootDir a.user a.id).Runs
      (folderEffect names fun _ => False) s true t := by
  refine ⟨_, true, _, rfl, true, _, .inl ⟨f, found, rfl⟩, true, _, ⟨fun failed => ?_, rfl⟩, rfl, rfl⟩
  cases failed

def noteAddress : Address where
  user := ascii "alice"
  id := MailStore.idAt (note (ascii "one")) 0
  userClean := by decide
  idClean := by decide

abbrev storeNote : MailCall := .store (note (ascii "one")) (by decide) (by decide)

theorem aliceDisk_shows : Shows aliceDisk fun _ => none :=
  fun _ _ => ⟨rfl, fun _ found => Disk.holding_synced found⟩

abbrev noteSystem : CallSystem MailCall MailAnswer (FsOp FsPath FsPath) FsOp.Res (Disk FsPath) :=
  mailSystem (.lexical .windows) (ascii "data/mail") fun _ => False

theorem root_clean : 0 ∉ ascii "data/mail" := by decide

theorem note_quarantined : ∃ mid t, Trace noteSystem.Step aliceDisk
    [⟨.returned storeNote (.stored (.ok noteAddress.id)), aliceDisk, mid⟩,
      ⟨.returned (.moveToQuarantine noteAddress) (.done true), mid, t⟩] t := by
  obtain ⟨mid, stored, -, -⟩ := store_runs .windows (.lexical .windows) (ascii "data/mail")
    (fun _ => False) (note (ascii "one")) aliceDisk (List.cons_ne_nil _ _) (by decide) (by decide)
  have first : noteSystem.Step aliceDisk
      (.returned storeNote (.stored (.ok noteAddress.id))) mid :=
    Prog.runs_map.mpr ⟨_, stored.mono fun _ _ _ _ => folderEffect_of_effect, rfl⟩
  obtain ⟨folders, means, shows⟩ := (mailSystem_refines root_clean).step aliceDisk_shows first
  have means : meaningOf (.lexical .windows) (ascii "data/mail") (fun _ => False) storeNote
      (fun _ => none) (.stored (.ok noteAddress.id)) folders := means
  have filed := store_filed (a := noteAddress) (by decide) rfl means
  have content := (shows _ (@inInbox_isEml _ (.lexical .windows) _ root_clean noteAddress)).contents
  rw [filed] at content
  obtain ⟨f, found, -⟩ := Option.map_eq_some_iff.mp content
  obtain ⟨t, moved⟩ := moveToQuarantine_runs found
  have second : noteSystem.Step mid (.returned (.moveToQuarantine noteAddress) (.done true)) t :=
    Prog.runs_map.mpr ⟨_, moved, rfl⟩
  exact ⟨mid, t, (Trace.nil.snoc first).snoc second⟩

theorem note_history : ∃ mid t past' later,
    Trace (mailMeaning (.lexical .windows) (ascii "data/mail") True).Step (fun _ => none) past' later ∧
      Alike Shows [⟨.returned storeNote (.stored (.ok noteAddress.id)), aliceDisk, mid⟩,
          ⟨.returned (.moveToQuarantine noteAddress) (.done true), mid, t⟩] past' ∧
      Shows t later := by
  obtain ⟨mid, t, trace⟩ := note_quarantined
  have reliable : (∀ op : FsOp FsPath FsPath, ¬ (fun _ => False) op) = True := by simp
  exact ⟨mid, t, reliable ▸ mail_store_history root_clean aliceDisk_shows trace⟩

theorem note_kept : ∃ t, KeptFor (.lexical .windows) (ascii "data/mail") t noteAddress
    (MailStore.composed (note (ascii "one")) (ascii "0")) := by
  obtain ⟨mid, t, trace⟩ := note_quarantined
  have spared : ∀ y ∈ [(⟨.returned (.moveToQuarantine noteAddress) (.done true), mid, t⟩ :
      Taken (CallEvent MailCall MailAnswer) (Disk FsPath))],
      ¬ MayDo (MailCall.Replaces (.lexical .windows) (ascii "data/mail") noteAddress) y.label := by
    intro y member
    obtain rfl := List.mem_singleton.mp member
    exact fun replaces => replaces.2 ⟨rfl, rfl⟩
  have whole : Trace noteSystem.Step aliceDisk
      ([] ++ ⟨.returned storeNote (.stored (.ok noteAddress.id)), aliceDisk, mid⟩ ::
        [⟨.returned (.moveToQuarantine noteAddress) (.done true), mid, t⟩]) t := trace
  exact ⟨t, (accepted_message_kept root_clean aliceDisk_shows whole (by decide) rfl spared).1⟩

end EmailServer.Storage
