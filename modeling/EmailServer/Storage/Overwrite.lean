import EmailServer.Storage.Durability

/-! # Sequences of stores

A generated identifier is the time in milliseconds, and the rename at the end
of a write replaces what is there. So a message survives the stores after it
exactly if none of them gets at its file: as another message, or as the
temporary file of one.
-/

namespace EmailServer.Storage

/-- A successful call of `store`, with the time it reads and the identifier it returns. -/
structure Delivery where
  msg : StoredMessage
  time : Nat
  id : Bytes

namespace Delivery

variable {syn : PathSyntax} (names : Naming syn) (rootDir : Bytes) (d e : Delivery)

def mailbox : FsPath := names.locate (MailStore.makeUserInboxDir syn rootDir d.msg.mailboxUser)

def content : Bytes := MailStore.composed d.msg d.id

def millisecond : Nat := d.time / ticksPerMillisecond

variable (syn) in
def path : FsPath :=
  MailStore.makeMessagePath syn rootDir d.msg.mailboxUser (toDecimal d.millisecond)

/-- The file that holds the message. -/
def file : FsPath := names.locate (d.path syn rootDir)

def temp : FsPath := names.locate (MailStore.tempPath (d.path syn rootDir))

/-- A later call `e` does not get at the file of `d`. -/
def Spares : Prop := d.file names rootDir ≠ e.file names rootDir ∧
  d.file names rootDir ≠ e.temp names rootDir

instance : Decidable (Spares names rootDir d e) := inferInstanceAs (Decidable (_ ∧ _))

end Delivery

/-- The disk moves from `s` to `t` by successful calls without an identifier of
    their own, one after the other; the mutex of the store lets no two of them
    overlap. -/
inductive Deliveries {syn : PathSyntax} (names : Naming syn) (rootDir : Bytes)
    (fails : FsOp FsPath FsPath → Prop) : Disk FsPath → List Delivery → Disk FsPath → Prop
  | none {s} : Deliveries names rootDir fails s [] s
  | next {s mid t d rest} : s.now ≤ d.time → d.msg.id = [] → d.id ≠ [] →
      (MailStore.store syn rootDir d.msg).Runs (mailPlatform names fails).Effect
        { s with now := d.time } (.ok d.id) mid →
      Deliveries names rootDir fails mid rest t → Deliveries names rootDir fails s (d :: rest) t

/-- Every message of the sequence is still stored, each in a file of its own. -/
structure AllKept {syn : PathSyntax} (names : Naming syn) (rootDir : Bytes) (t : Disk FsPath)
    (ds : List Delivery) : Prop where
  stored : ∀ d ∈ ds, t.contents (d.file names rootDir) = some d.content
  distinct : ds.Pairwise fun d e => d.file names rootDir ≠ e.file names rootDir

variable {syn : PathSyntax} {names : Naming syn} {rootDir : Bytes}
  {fails : FsOp FsPath FsPath → Prop} {s mid t : Disk FsPath} {ds : List Delivery}

section Calls

variable {d e : Delivery} (generated : d.msg.id = []) (nonempty : d.id ≠ [])
  (run : (MailStore.store syn rootDir d.msg).Runs (mailPlatform names fails).Effect
    { s with now := d.time } (.ok d.id) mid)

include generated nonempty run

theorem Delivery.id_eq : d.id = toDecimal d.millisecond := by
  rw [store_id nonempty run, MailStore.idAt, if_pos generated]
  rfl

theorem Delivery.path_eq : messagePath syn rootDir d.msg { s with now := d.time } =
    d.path syn rootDir := by
  rw [messagePath, ← store_id nonempty run, Delivery.id_eq generated nonempty run]
  rfl

theorem Delivery.stored : mid.contents (d.file names rootDir) = some d.content := by
  rw [Delivery.file, Delivery.path, ← Delivery.id_eq generated nonempty run]
  exact store_success nonempty run

theorem Delivery.elsewhere {p : FsPath} (notFile : p ≠ d.file names rootDir)
    (notTemp : p ≠ d.temp names rootDir) : mid.files p = s.files p := by
  have path := Delivery.path_eq generated nonempty run
  refine store_elsewhere nonempty run ?_ ?_
  · rw [path]
    exact notTemp
  · rw [path]
    exact notFile

theorem Delivery.temp_gone (distinct : d.temp names rootDir ≠ d.file names rootDir) :
    mid.files (d.temp names rootDir) = none := by
  have path := Delivery.path_eq generated nonempty run
  have gone := store_temp_gone nonempty run
  rw [path] at gone
  exact gone distinct

end Calls

theorem Deliveries.keep (deliveries : Deliveries names rootDir fails s ds t) {p : FsPath}
    (spared : ∀ d ∈ ds, p ≠ d.file names rootDir ∧ p ≠ d.temp names rootDir) :
    t.files p = s.files p := by
  induction deliveries with
  | none => rfl
  | next _ generated nonempty run _ ih =>
      obtain ⟨here, later⟩ := List.forall_mem_cons.mp spared
      rw [ih later, Delivery.elsewhere generated nonempty run here.1 here.2]

theorem Deliveries.gone (deliveries : Deliveries names rootDir fails s ds t) {p : FsPath}
    (absent : s.files p = Option.none) (other : ∀ d ∈ ds, p ≠ d.file names rootDir) :
    t.files p = Option.none := by
  induction deliveries with
  | none => exact absent
  | @next s mid t d rest _ generated nonempty run _ ih =>
      obtain ⟨here, later⟩ := List.forall_mem_cons.mp other
      refine ih ?_ later
      by_cases temp : p = d.temp names rootDir
      · rw [temp]
        exact Delivery.temp_gone generated nonempty run (temp ▸ here)
      · rw [Delivery.elsewhere generated nonempty run here temp]
        exact absent

/-- A file that is there in the end was no temporary file of a later call. -/
theorem Deliveries.not_temp (deliveries : Deliveries names rootDir fails s ds t) {p : FsPath}
    (there : t.files p ≠ Option.none) (other : ∀ d ∈ ds, p ≠ d.file names rootDir) :
    ∀ d ∈ ds, p ≠ d.temp names rootDir := by
  induction deliveries with
  | none => simp
  | next _ generated nonempty run rest ih =>
      obtain ⟨here, later⟩ := List.forall_mem_cons.mp other
      refine List.forall_mem_cons.mpr ⟨?_, ih there later⟩
      rintro rfl
      exact there (rest.gone (Delivery.temp_gone generated nonempty run here) later)

theorem Deliveries.stored (deliveries : Deliveries names rootDir fails s ds t)
    (spared : ds.Pairwise (Delivery.Spares names rootDir)) :
    ∀ d ∈ ds, t.contents (d.file names rootDir) = some d.content := by
  induction deliveries with
  | none => simp
  | next _ generated nonempty run later ih =>
      obtain ⟨first, rest⟩ := List.pairwise_cons.mp spared
      refine List.forall_mem_cons.mpr ⟨?_, ih rest⟩
      rw [Disk.contents_congr (later.keep first)]
      exact Delivery.stored generated nonempty run

theorem Deliveries.spared (deliveries : Deliveries names rootDir fails s ds t)
    (kept : AllKept names rootDir t ds) : ds.Pairwise (Delivery.Spares names rootDir) := by
  obtain ⟨stored, distinct⟩ := kept
  induction deliveries with
  | none => exact .nil
  | @next s mid t d rest _ _ _ _ later ih =>
      obtain ⟨first, distinct⟩ := List.pairwise_cons.mp distinct
      obtain ⟨here, stored⟩ := List.forall_mem_cons.mp stored
      refine List.pairwise_cons.mpr ⟨fun e member => ⟨first e member, ?_⟩, ih stored distinct⟩
      refine later.not_temp (fun absent => ?_) first e member
      rw [Disk.contents, absent] at here
      cases here

/-- Without a NUL in their mailboxes, a later call gets at the file exactly if it stores to the
    same mailbox in the same millisecond. -/
theorem Delivery.spares_iff {d e : Delivery}
    (first : (MailStore.makeUserInboxDir syn rootDir d.msg.mailboxUser).NulFree)
    (second : (MailStore.makeUserInboxDir syn rootDir e.msg.mailboxUser).NulFree) :
    d.Spares names rootDir e ↔ (d.mailbox names rootDir = e.mailbox names rootDir →
      d.millisecond ≠ e.millisecond) := by
  have plain := MailStore.toDecimal_plain d.millisecond
  have eml : IsEml (d.file names rootDir) := MailStore.locate_isEml
    ((MailStore.messagePath_nulFree plain).mpr first) (MailStore.makeMessagePath_isEml ..)
  have temp : d.file names rootDir ≠ e.temp names rootDir := by
    intro same
    exact MailStore.tempPath_not_eml ((MailStore.messagePath_nulFree
      (MailStore.toDecimal_plain e.millisecond)).mpr second) (same ▸ eml)
  rw [Delivery.Spares, and_iff_left temp, ← not_and]
  refine not_congr ?_
  rw [Delivery.file, Delivery.file, Delivery.path, Delivery.path, MailStore.locate_generated,
    MailStore.locate_generated, if_pos first, if_pos second]
  constructor
  · intro same
    have names := congrArg FsPath.filename same
    have dirs := congrArg FsPath.parent same
    rw [FsPath.child_filename, FsPath.child_filename] at names
    rw [FsPath.child_parent, FsPath.child_parent] at dirs
    exact ⟨dirs, toDecimal_injective (List.append_cancel_right names)⟩
  · rintro ⟨mailbox, time⟩
    rw [time]
    exact congrArg (FsPath.child · _) mailbox

/-! ## Two calls for one mailbox -/

/-- A message for `alice`. -/
def note (text : Bytes) : StoredMessage where
  id := []
  sender := ascii "bob"
  recipients := [ascii "alice"]
  rawData := text
  mailboxUser := ascii "alice"

def noteAt (text : Bytes) (time : Nat) : Delivery where
  msg := note text
  time := time
  id := MailStore.idAt (note text) time

/-- Nothing but the mailbox of `alice`. -/
def aliceDisk : Disk FsPath :=
  .holding (fun _ => none)
    (fun p => p.parts == [ascii "data", ascii "mail", ascii "alice", ascii "INBOX"]) 0

theorem two_notes (first second : Bytes) {time later : Nat} (order : time ≤ later)
    (short : (MailStore.composed (note first) (MailStore.idAt (note first) time)).length < 2 ^ 32)
    (short' : (MailStore.composed (note second) (MailStore.idAt (note second) later)).length < 2 ^ 32) :
    ∃ t, Deliveries (.lexical .windows) (ascii "data/mail") (fun _ => False) aliceDisk
      [noteAt first time, noteAt second later] t := by
  have mailbox : aliceDisk.dirs ((Naming.lexical .windows).locate
      (MailStore.makeUserInboxDir .windows (ascii "data/mail") (ascii "alice"))) = true := by
    decide
  obtain ⟨mid, stored, dirs, now⟩ := store_runs .windows (.lexical .windows) (ascii "data/mail")
    (fun _ => False) (note first) { aliceDisk with now := time } (List.cons_ne_nil _ _) mailbox short
  obtain ⟨t, stored', -, -⟩ := store_runs .windows (.lexical .windows) (ascii "data/mail")
    (fun _ => False) (note second) { mid with now := later } (List.cons_ne_nil _ _)
    (by rw [← mailbox]; exact congrFun dirs _) short'
  exact ⟨t, .next (Nat.zero_le _) rfl (MailStore.idAt_ne_nil (note first) time) stored
    (.next (by rw [now]; exact order) rfl (MailStore.idAt_ne_nil (note second) later) stored' .none)⟩

/-! ## Which messages are kept -/

/-- For every sequence of successful calls, at whatever times and to whatever
    mailboxes: all messages are kept if and only if no later call gets at the file
    of an earlier one. Without a NUL in the mailboxes, this is so if and only if no
    two calls store to one mailbox in one millisecond. -/
theorem all_kept_iff (deliveries : Deliveries names rootDir fails s ds t) :
    (AllKept names rootDir t ds ↔ ds.Pairwise (Delivery.Spares names rootDir)) ∧
      ((∀ d ∈ ds, (MailStore.makeUserInboxDir syn rootDir d.msg.mailboxUser).NulFree) →
        (ds.Pairwise (Delivery.Spares names rootDir) ↔ ds.Pairwise fun d e =>
          d.mailbox names rootDir = e.mailbox names rootDir → d.millisecond ≠ e.millisecond)) := by
  refine ⟨⟨deliveries.spared, fun spared => ⟨deliveries.stored spared, spared.imp And.left⟩⟩, ?_⟩
  intro nulFree
  exact List.Pairwise.iff_of_mem fun {d e} first second =>
    Delivery.spares_iff (nulFree d first) (nulFree e second)

/-- A millisecond apart, both messages are kept. -/
theorem all_kept_a_millisecond_apart :
    ∃ t, AllKept (.lexical .windows) (ascii "data/mail") t
      [noteAt (ascii "one") 0, noteAt (ascii "two") 10000] := by
  obtain ⟨t, deliveries⟩ := two_notes (ascii "one") (ascii "two") (by decide : 0 ≤ 10000)
    (by decide) (by decide)
  exact ⟨t, (all_kept_iff deliveries).1.mpr (by decide)⟩

/-- In one millisecond, the second message replaces the first. -/
theorem accepted_message_overwritten :
    ∃ t, Deliveries (.lexical .windows) (ascii "data/mail") (fun _ => False) aliceDisk
        [noteAt (ascii "one") 0, noteAt (ascii "two") 0] t ∧
      ¬ AllKept (.lexical .windows) (ascii "data/mail") t
        [noteAt (ascii "one") 0, noteAt (ascii "two") 0] := by
  obtain ⟨t, deliveries⟩ := two_notes (ascii "one") (ascii "two") (le_refl 0) (by decide) (by decide)
  refine ⟨t, deliveries, ?_⟩
  intro kept
  exact (List.pairwise_cons.mp kept.distinct).1 (noteAt (ascii "two") 0) (by simp) (by decide)

/-- Where case does not matter, `alice` and `Alice` have one mailbox. -/
example : (noteAt [] 0).mailbox (.caseless .windows) (ascii "data/mail") =
    ({ noteAt [] 0 with msg := { note [] with mailboxUser := ascii "Alice" } } : Delivery).mailbox
      (.caseless .windows) (ascii "data/mail") := by decide

/-- Behind a NUL, a call gets at a message of `bob`. -/
example : ¬ ({ noteAt [] 0 with msg := { note [] with mailboxUser := ascii "bob" } } : Delivery).Spares
    (.lexical .windows) (ascii "data/mail")
    { noteAt [] 7 with
      msg := { note [] with mailboxUser := ascii "bob/INBOX/0.eml" ++ [0] } } := by decide

end EmailServer.Storage
