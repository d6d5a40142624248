import EmailServer.Smtp.Runs
import EmailServer.Storage.Confinement
import EmailServer.Storage.Overwrite

/-! # From the session to the mail store

A session hands every message to the store under the name of its first
recipient, as the client has written it, and answers `250` when the store has
returned an identifier. What the store does with such a call decides where the
message goes and who gets it.
-/

namespace EmailServer.Smtp

open FsPath (StrictlyInside AtOrBelow)
open Storage (StoredMessage MailStore.store MailStore.makeUserInboxDir MailStore.makeMessagePath
  mailPlatform mayFail)

/-! ## The calls of a session -/

/-- What has been stored so far was built from the session at the time. -/
def StoresOwn (c : Conn) : Prop :=
  ∀ session msg answer, .store session msg answer ∈ c.env.log →
    ∃ message, msg = messageOf session message

theorem StoresOwn.logs {c c' : Conn} (own : StoresOwn c) {P : Event → Prop} (logs : Logs P c c')
    (never : ∀ session msg answer, ¬ P (.store session msg answer)) : StoresOwn c' := by
  obtain ⟨new, log, each⟩ := logs
  intro session msg answer stored
  rw [log] at stored
  exact own session msg answer ((List.mem_append.mp stored).resolve_left
    fun member => never session msg answer (each _ member))

theorem StoresOwn.command {cfg : Config} {line : Bytes} {c : Conn} (own : StoresOwn c) :
    StoresOwn (isolate (handleCommand cfg line c)) := by
  have ended : StoresOwn (handleCommand cfg line c).conn := by
    intro session msg answer stored
    rcases handleCommand_stores stored with before | ⟨-, rfl, message, rfl⟩
    · exact own session msg answer before
    · exact ⟨message, rfl⟩
  cases handled : handleCommand cfg line c with
  | ok d | error d =>
      rw [handled] at ended
      intro session msg answer stored
      exact ended session msg answer (by simpa [isolate, Ended.conn] using stored)

theorem run_storesOwn (cfg : Config) (allowed tlsActive : Bool) (env : Env) :
    StoresOwn (run cfg allowed (Conn.fresh tlsActive env)) := by
  refine run_invariant (P := fun _ _ => True) (fun c c' own waits => ?_) (fun c line c' own head _ => ?_)
    (fun c own => ?_) (throughout_always cfg (fun _ _ => trivial) _ _) (by simp [StoresOwn, Conn.fresh])
  · exact own.logs waits.log fun _ _ _ => id
  · apply StoresOwn.command
    rcases nextCommand_cases cfg c with ⟨d, other, -⟩ | ⟨d, other, -⟩ | ⟨line, d, same, -, log, -⟩
    · rw [head] at other
      cases other
    · rw [head] at other
      cases other
    · rw [head] at same
      cases same
      intro session msg answer stored
      rw [log] at stored
      exact own session msg answer (by simpa using stored)
  · intro session msg answer stored
    exact own session msg answer (by simpa using stored)

/-- A client that logs in and sends a line to the recipients. -/
def mailing (rcpts : List Bytes) : Env where
  input := arriving (ascii "EHLO c\r\nAUTH PLAIN x\r\nMAIL FROM:<a>\r\n" ++
    (rcpts.map fun rcpt => ascii "RCPT " ++ rcpt ++ ascii "\r\n").flatten ++
    ascii "DATA\r\nhi\r\n.\r\n")
  auths := [⟨some true, ascii "alice"⟩]
  stores := [some (ascii "0")]

/-- The session of that client when it sends `DATA`. -/
def mailingSession (rcpts : List Bytes) : SmtpSession where
  tlsActive := true
  state := .rcptTo
  lastActivity := 0
  sockOpen := true
  authed := true
  username := ascii "alice"
  heloDomain := ascii "c"
  mailFrom := ascii "FROM:<a>"
  rcptTo := rcpts

/-! ## Confinement -/

/-- For every run, every call of the store that it makes, whatever fails and
    whatever is on the disk: all that the call creates or writes lies strictly
    inside the root directory if and only if the first recipient is empty or confined. -/
theorem session_confined_iff {syn : PathSyntax} (names : Naming syn) (rootDir : Bytes)
    (cfg : Config) (allowed tlsActive : Bool) (env : Env) (session : SmtpSession)
    (msg : StoredMessage) (answer : Option Bytes)
    (stored : .store session msg answer ∈ (run cfg allowed (Conn.fresh tlsActive env)).env.log)
    (fails : FsOp FsPath FsPath → Prop) (s : Disk FsPath) :
    (∀ op t, (MailStore.store syn rootDir msg).Executes (Storage.mailEffect names fails) s op t →
      ∀ p ∈ Storage.touches names t op, StrictlyInside (syn.parse rootDir) p) ↔
      (session.rcptTo.headD [] = [] ∨
        Storage.Confined syn names rootDir s (session.rcptTo.headD [])
          (toDecimal (s.now / Storage.ticksPerMillisecond))) := by
  obtain ⟨message, rfl⟩ := run_storesOwn cfg allowed tlsActive env session msg answer stored
  exact Storage.store_confined_iff rfl

/-- What is created for `alice` stays inside. -/
theorem session_confined_alice :
    ∃ op t p, (MailStore.store .windows (ascii "data/mail")
        (messageOf (mailingSession [ascii "alice"]) (ascii "hi\n"))).Executes
          (Storage.mailEffect (.lexical .windows) mayFail) Storage.aliceDisk op t ∧
      p ∈ Storage.touches (.lexical .windows) t op ∧
      StrictlyInside (PathSyntax.windows.parse (ascii "data/mail")) p := by
  have creates := @Storage.store_creates _ (.lexical .windows) (ascii "data/mail") mayFail
    (messageOf (mailingSession [ascii "alice"]) (ascii "hi\n")) Storage.aliceDisk (by decide) (by decide)
  have touched : PathSyntax.windows.parse (ascii "data/mail/alice/INBOX/0.eml.tmp") ∈
      Storage.touches (.lexical .windows) Storage.aliceDisk (.createFile
        (Storage.MailStore.tempPath (MailStore.makeMessagePath .windows (ascii "data/mail")
          (ascii "alice") (Storage.MailStore.idAt
            (messageOf (mailingSession [ascii "alice"]) (ascii "hi\n")) 0)))) := by decide
  refine ⟨_, _, _, creates, touched, (session_confined_iff (.lexical .windows) (ascii "data/mail")
    { minTlsVersion := TLS1_2_VERSION } true true (mailing [ascii "alice"])
    (mailingSession [ascii "alice"]) _ (some (ascii "0")) (by decide +kernel) mayFail
    Storage.aliceDisk).mpr ?_ _ _ creates _ touched⟩
  exact .inr ⟨by decide, fun _ _ _ => by decide, by decide⟩

/-- Mail for `../../x` is written outside the root directory. -/
theorem session_escapes :
    ∃ session msg answer,
      .store session msg answer ∈ (run { minTlsVersion := TLS1_2_VERSION } true
        (Conn.fresh true (mailing [ascii "../../x"]))).env.log ∧
      ∃ op t, (MailStore.store .windows (ascii "data/mail") msg).Executes
          (Storage.mailEffect (.lexical .windows) mayFail) Storage.aliceDisk op t ∧
        ∃ p ∈ Storage.touches (.lexical .windows) t op,
          ¬ StrictlyInside (PathSyntax.windows.parse (ascii "data/mail")) p := by
  refine ⟨mailingSession [ascii "../../x"],
    messageOf (mailingSession [ascii "../../x"]) (ascii "hi\n"), some (ascii "0"), by decide +kernel, ?_⟩
  have makes := @Storage.store_makes _ (.lexical .windows) (ascii "data/mail") mayFail
    (messageOf (mailingSession [ascii "../../x"]) (ascii "hi\n")) Storage.aliceDisk (by decide) (by decide)
  exact ⟨_, _, makes, PathSyntax.windows.parse (ascii "data/mail/../../x/INBOX"), by decide, by decide⟩

/-! ## Durability -/

/-- What a call promises for a disk: what it returns is true of the files, and recovery after
    a crash leaves old or complete new messages. -/
structure Durable {syn : PathSyntax} (names : Naming syn) (rootDir : Bytes) (msg : StoredMessage)
    (prior : Disk FsPath) : Prop where
  returns : ∀ r t, (MailStore.store syn rootDir msg).Runs (mailPlatform names mayFail).Effect
    prior r t → Storage.Finished syn names rootDir msg prior t r
  recovers : ∀ u v w, (MailStore.store syn rootDir msg).Visits
      (mailPlatform names mayFail).Effect prior u →
    u.Crash v →
    (Storage.MailStore.recoverOrphanedTempFiles syn rootDir).Runs
      (mailPlatform names mayFail).Effect v () w →
    Storage.Recovered syn names rootDir msg prior w

/-- For every prior file system and every call whose mailbox lies inside the root directory,
    whatever fails and wherever it is cut off: the call is durable, and a session accepts a
    message only after a call that has put the complete content in place, if and only if the
    user is empty, or no NUL cuts the path of the message down to another message. -/
theorem delivery_durable_iff {syn : PathSyntax} (names : Naming syn) (rootDir : Bytes)
    (msg : StoredMessage) (now : Nat)
    (inside : AtOrBelow (syn.cString (syn.parse rootDir))
      (syn.cString (MailStore.makeUserInboxDir syn rootDir msg.mailboxUser)))
    (cfg : Config) (c : Conn) :
    ((∀ contents dirs, Durable names rootDir msg (Disk.holding contents dirs now)) ∧
      (.reply accepted ∈ since c (handleData cfg c).conn →
        ∃ message id, id ≠ [] ∧ .store c.session (messageOf c.session message) (some id) ∈
            since c (handleData cfg c).conn ∧
          ∀ s t, (MailStore.store syn rootDir (messageOf c.session message)).Runs
              (mailPlatform names mayFail).Effect s (.ok id) t →
            t.contents (names.locate (MailStore.makeMessagePath syn rootDir
                (messageOf c.session message).mailboxUser id)) =
              some (Storage.MailStore.composed (messageOf c.session message) id))) ↔
      (msg.mailboxUser = [] ∨
        (MailStore.makeMessagePath syn rootDir msg.mailboxUser
          (Storage.MailStore.idAt msg now)).NulFree ∨
        ¬ Storage.IsEml (names.locate (MailStore.makeMessagePath syn rootDir msg.mailboxUser
          (Storage.MailStore.idAt msg now)))) := by
  rw [← Storage.MailStore.tempPath_not_eml_iff]
  constructor
  · rintro ⟨durable, -⟩
    rw [or_iff_not_imp_left]
    intro user eml
    obtain ⟨t, run, gone⟩ := @Storage.store_discards _ names _ _ user now [] _ rfl
    have kept := ((durable _ _).returns _ _ run).1 _ eml
    rw [gone] at kept
    simp [Disk.contents, Disk.holding] at kept
  · intro apart
    refine ⟨fun contents dirs => ?_, fun answered => ?_⟩
    · have apart : msg.mailboxUser = [] ∨ ¬ Storage.IsEml (names.locate (Storage.MailStore.tempPath
          (Storage.messagePath syn rootDir msg (Disk.holding contents dirs now)))) := apart
      exact ⟨fun r t run => Storage.store_finished apart run,
        fun u v w visit crash run => Storage.store_recovered apart
          (fun p f found => Disk.holding_synced found) inside visit crash run⟩
    · obtain ⟨message, id, nonempty, stored⟩ := handleData_accepted answered
      exact ⟨message, id, nonempty, stored, fun s t run => Storage.store_success nonempty run⟩

/-- A message for `alice` on a disk with her mailbox: stored, or cut off with an empty
    temporary file that recovery removes. -/
theorem delivery_durable_alice : ∃ t u w,
    (MailStore.store .windows (ascii "data/mail") (Storage.note (ascii "one"))).Runs
        (mailPlatform (.lexical .windows) mayFail).Effect Storage.aliceDisk (.ok (ascii "0")) t ∧
      Storage.Finished .windows (.lexical .windows) (ascii "data/mail")
        (Storage.note (ascii "one")) Storage.aliceDisk t (.ok (ascii "0")) ∧
      (MailStore.store .windows (ascii "data/mail") (Storage.note (ascii "one"))).Visits
        (mailPlatform (.lexical .windows) mayFail).Effect Storage.aliceDisk u ∧
      u.files (PathSyntax.windows.parse (ascii "data/mail/alice/INBOX/0.eml.tmp")) ≠ none ∧
      (Storage.MailStore.recoverOrphanedTempFiles .windows (ascii "data/mail")).Runs
        (mailPlatform (.lexical .windows) mayFail).Effect u () w ∧
      Storage.Recovered .windows (.lexical .windows) (ascii "data/mail")
        (Storage.note (ascii "one")) Storage.aliceDisk w := by
  obtain ⟨durable, -⟩ := (delivery_durable_iff (.lexical .windows) (ascii "data/mail")
    (Storage.note (ascii "one")) 0 (by decide) { minTlsVersion := TLS1_2_VERSION }
    (Conn.fresh true (mailing [ascii "alice"]))).mpr (.inr (.inl (by decide)))
  have durable := durable (fun _ => none) Storage.aliceDisk.dirs
  obtain ⟨t, stored, -⟩ := Storage.store_runs .windows (.lexical .windows) (ascii "data/mail") mayFail
    (Storage.note (ascii "one")) Storage.aliceDisk (by decide) (by decide) (by decide)
  let temp := PathSyntax.windows.parse (ascii "data/mail/alice/INBOX/0.eml.tmp")
  let u := Storage.aliceDisk.put temp ⟨[], false, 0⟩
  have visit : (MailStore.store .windows (ascii "data/mail") (Storage.note (ascii "one"))).Visits
      (mailPlatform (.lexical .windows) mayFail).Effect Storage.aliceDisk u := by
    have looked : (mailPlatform (.lexical .windows) mayFail).Effect (.fileExists
        (MailStore.makeUserInboxDir .windows (ascii "data/mail") (ascii "alice")))
        Storage.aliceDisk (some true) Storage.aliceDisk := ⟨by decide, rfl⟩
    have clock : (mailPlatform (.lexical .windows) mayFail).Effect .clockNow
        Storage.aliceDisk (0 : Nat) Storage.aliceDisk := ⟨rfl, rfl⟩
    have place : (Naming.lexical .windows).locate (Storage.MailStore.tempPath
        (MailStore.makeMessagePath .windows (ascii "data/mail") (ascii "alice")
          (toDecimal (0 / Storage.ticksPerMillisecond)))) = temp := by decide
    have opens : (mailPlatform (.lexical .windows) mayFail).Effect (.createFile
        (Storage.MailStore.tempPath (MailStore.makeMessagePath .windows (ascii "data/mail")
          (ascii "alice") (toDecimal (0 / Storage.ticksPerMillisecond))))) Storage.aliceDisk true u :=
      congrArg (Storage.aliceDisk.put · ⟨[], false, 0⟩) place.symm
    exact .later looked (.later clock (.later opens .stop))
  have crash : u.Crash u := ⟨fun _ _ there _ => there, fun _ absent => absent⟩
  have recovery : (Storage.MailStore.recoverOrphanedTempFiles .windows (ascii "data/mail")).Runs
      (mailPlatform (.lexical .windows) mayFail).Effect u () (u.clear temp) := by
    have scanned : Storage.Scanned (.lexical .windows)
        (PathSyntax.windows.cString (PathSyntax.windows.parse (ascii "data/mail"))) temp :=
      ⟨temp, by decide, by decide, by decide⟩
    refine ⟨some [temp], u, ⟨fun p => ?_, rfl⟩, some true, u.clear temp, ?_, rfl, rfl⟩
    · by_cases this : p = temp
      · simp [this, scanned, u]
      · simp [this, u, Storage.aliceDisk, Disk.holding]
    · have place : (Naming.lexical .windows).locate temp = temp := by decide
      show true = (u.files ((Naming.lexical .windows).locate temp)).isSome ∧
        u.clear temp = u.clear ((Naming.lexical .windows).locate temp)
      rw [place]
      exact ⟨by simp [u], rfl⟩
  exact ⟨t, u, u.clear temp, stored, durable.returns _ t stored, visit, by simp [u, temp], recovery,
    durable.recovers u u _ visit crash recovery⟩

/-- Mail for `bob/INBOX/5.eml`, with a NUL behind it, is written over that message; when the
    write falls short, the message is deleted. -/
theorem old_message_lost : ∃ (old : Bytes) (prior t : Disk FsPath),
    AtOrBelow (PathSyntax.windows.parse (ascii "data/mail"))
      (MailStore.makeUserInboxDir .windows (ascii "data/mail")
        (ascii "bob/INBOX/5.eml" ++ [0])) ∧
    prior.contents (PathSyntax.windows.parse (ascii "data/mail/bob/INBOX/5.eml")) = some old ∧
    (MailStore.store .windows (ascii "data/mail")
        (messageOf (mailingSession [ascii "bob/INBOX/5.eml" ++ [0]]) (ascii "hi\n"))).Runs
      (mailPlatform (.lexical .windows) mayFail).Effect prior (.ok []) t ∧
    t.contents (PathSyntax.windows.parse (ascii "data/mail/bob/INBOX/5.eml")) = none := by
  obtain ⟨t, run, gone⟩ := @Storage.store_discards _ (.lexical .windows) (ascii "data/mail")
    (messageOf (mailingSession [ascii "bob/INBOX/5.eml" ++ [0]]) (ascii "hi\n")) (by decide) 0
    (ascii "old") (PathSyntax.windows.parse (ascii "data/mail/bob/INBOX/5.eml")) (by decide)
  exact ⟨ascii "old", _, t, by decide, by simp [Disk.contents, Disk.holding], run, gone⟩

/-! ## Recipients -/

/-- The file that a call has stored `msg` in is an entry of the mailbox of `rcpt`. The
    session has no queue to hand the message to. -/
def DeliveredTo {syn : PathSyntax} (names : Naming syn) (rootDir : Bytes) (msg : StoredMessage)
    (id : Bytes) (t : Disk FsPath) (rcpt : Bytes) : Prop :=
  ∃ name, names.locate (MailStore.makeMessagePath syn rootDir msg.mailboxUser id) =
      (names.locate (MailStore.makeUserInboxDir syn rootDir rcpt)).child name ∧
    t.contents (names.locate (MailStore.makeMessagePath syn rootDir msg.mailboxUser id)) =
      some (Storage.MailStore.composed msg id)

section Reached

variable {syn : PathSyntax} {names : Naming syn} {rootDir : Bytes}
  {fails : FsOp FsPath FsPath → Prop} {session : SmtpSession} {message id : Bytes}
  {s t : Disk FsPath} (nonempty : id ≠ [])
  (run : (MailStore.store syn rootDir (messageOf session message)).Runs
    (mailPlatform names fails).Effect s (.ok id) t)

include nonempty run

theorem stored_place : names.locate (MailStore.makeMessagePath syn rootDir
      (messageOf session message).mailboxUser id) =
    if (MailStore.makeUserInboxDir syn rootDir (session.rcptTo.headD [])).NulFree
    then (names.locate (MailStore.makeUserInboxDir syn rootDir (session.rcptTo.headD []))).child
      (id ++ ascii ".eml")
    else names.locate (MailStore.makeUserInboxDir syn rootDir (session.rcptTo.headD [])) := by
  have digits : id = toDecimal (s.now / Storage.ticksPerMillisecond) := Storage.store_id nonempty run
  rw [digits]
  exact Storage.MailStore.locate_generated _

/-- Without a NUL in the way, a successful call delivers the message to those whose mailbox
    is that of the first recipient. -/
theorem deliveredTo_iff
    (nulFree : (MailStore.makeUserInboxDir syn rootDir (session.rcptTo.headD [])).NulFree)
    (rcpt : Bytes) :
    DeliveredTo names rootDir (messageOf session message) id t rcpt ↔
      names.locate (MailStore.makeUserInboxDir syn rootDir rcpt) =
        names.locate (MailStore.makeUserInboxDir syn rootDir (session.rcptTo.headD [])) := by
  have place := stored_place nonempty run
  rw [if_pos nulFree] at place
  constructor
  · rintro ⟨name, there, -⟩
    rw [place] at there
    simpa using (congrArg FsPath.parent there).symm
  · intro same
    exact ⟨_, by rw [place, same], Storage.store_success nonempty run⟩

theorem not_deliveredTo_first
    (cut : ¬ (MailStore.makeUserInboxDir syn rootDir (session.rcptTo.headD [])).NulFree) :
    ¬ DeliveredTo names rootDir (messageOf session message) id t (session.rcptTo.headD []) := by
  rintro ⟨name, there, -⟩
  rw [stored_place nonempty run, if_neg cut] at there
  have lengths := congrArg (fun p => p.parts.length) there
  simp [FsPath.child] at lengths

theorem first_recipient : session.rcptTo.headD [] ∈ session.rcptTo := by
  have user : (messageOf session message).mailboxUser ≠ [] := by
    intro nobody
    rw [Storage.store_nobody nobody] at run
    exact nonempty (Except.ok.inj run.1)
  cases rcpts : session.rcptTo with
  | nil => exact absurd (show (messageOf session message).mailboxUser = [] by simp [messageOf, rcpts]) user
  | cons first rest => exact List.mem_cons_self

theorem all_reached_iff :
    (∀ rcpt ∈ session.rcptTo, DeliveredTo names rootDir (messageOf session message) id t rcpt) ↔
      (MailStore.makeUserInboxDir syn rootDir (session.rcptTo.headD [])).NulFree ∧
      ∀ rcpt ∈ session.rcptTo, names.locate (MailStore.makeUserInboxDir syn rootDir rcpt) =
        names.locate (MailStore.makeUserInboxDir syn rootDir (session.rcptTo.headD [])) := by
  constructor
  · intro reached
    have nulFree : (MailStore.makeUserInboxDir syn rootDir (session.rcptTo.headD [])).NulFree := by
      by_contra cut
      exact not_deliveredTo_first nonempty run cut (reached _ (first_recipient nonempty run))
    exact ⟨nulFree, fun rcpt member =>
      (deliveredTo_iff nonempty run nulFree rcpt).mp (reached rcpt member)⟩
  · rintro ⟨nulFree, same⟩ rcpt member
    exact (deliveredTo_iff nonempty run nulFree rcpt).mpr (same rcpt member)

end Reached

/-- In every run, whenever `DATA` is answered with the acceptance: the message
    has been stored for all recipients if and only if no NUL is in the way to the
    mailbox of the first and all of them share it. Without a NUL, no other mailbox
    has changed. -/
theorem recipients_reached_iff {syn : PathSyntax} (names : Naming syn) (rootDir : Bytes)
    (cfg : Config) (tlsActive : Bool) (env : Env) :
    ThroughoutRun cfg (fun line c => EntersData cfg line c →
      .reply accepted ∈ since c (handleData cfg c).conn →
      ∃ message id, .store c.session (messageOf c.session message) (some id) ∈
          since c (handleData cfg c).conn ∧
        ∀ fails s t, (MailStore.store syn rootDir (messageOf c.session message)).Runs
            (mailPlatform names fails).Effect s (.ok id) t →
          ((∀ rcpt ∈ c.session.rcptTo,
              DeliveredTo names rootDir (messageOf c.session message) id t rcpt) ↔
            (MailStore.makeUserInboxDir syn rootDir (c.session.rcptTo.headD [])).NulFree ∧
            ∀ rcpt ∈ c.session.rcptTo,
              names.locate (MailStore.makeUserInboxDir syn rootDir rcpt) =
                names.locate (MailStore.makeUserInboxDir syn rootDir (c.session.rcptTo.headD []))) ∧
          ((MailStore.makeUserInboxDir syn rootDir (c.session.rcptTo.headD [])).NulFree →
            ∀ rcpt, names.locate (MailStore.makeUserInboxDir syn rootDir rcpt) ≠
                names.locate (MailStore.makeUserInboxDir syn rootDir (c.session.rcptTo.headD [])) →
              ∀ name,
                t.files ((names.locate (MailStore.makeUserInboxDir syn rootDir rcpt)).child name) =
                s.files ((names.locate (MailStore.makeUserInboxDir syn rootDir rcpt)).child name)))
      (Conn.fresh tlsActive env) := by
  refine throughout_always cfg (fun line c _ answered => ?_) _ _
  obtain ⟨message, id, nonempty, stored⟩ := handleData_accepted answered
  refine ⟨message, id, stored, fun fails s t run => ⟨all_reached_iff nonempty run, ?_⟩⟩
  intro nulFree rcpt other name
  have generated : (messageOf c.session message).id = [] := rfl
  exact Storage.store_other_mailbox generated nulFree nonempty run other name

/-- Mail for `alice` and `bob` is accepted and stored for `alice` only. -/
theorem second_recipient_missed :
    ∃ session msg, .store session msg (some (ascii "0")) ∈ (run { minTlsVersion := TLS1_2_VERSION }
        true (Conn.fresh true (mailing [ascii "alice", ascii "bob"]))).env.log ∧
      .reply accepted ∈ (run { minTlsVersion := TLS1_2_VERSION } true
        (Conn.fresh true (mailing [ascii "alice", ascii "bob"]))).env.log ∧
      ∃ t, (MailStore.store .windows (ascii "data/mail") msg).Runs
          (mailPlatform (.lexical .windows) mayFail).Effect Storage.aliceDisk (.ok (ascii "0")) t ∧
        ascii "bob" ∈ session.rcptTo ∧
        ¬ DeliveredTo (.lexical .windows) (ascii "data/mail") msg (ascii "0") t (ascii "bob") := by
  obtain ⟨t, stored, -⟩ := Storage.store_runs .windows (.lexical .windows) (ascii "data/mail") mayFail
    (messageOf (mailingSession [ascii "alice", ascii "bob"]) (ascii "hi\n")) Storage.aliceDisk
    (by decide) (by decide) (by decide)
  have stores : .store (mailingSession [ascii "alice", ascii "bob"])
      (messageOf (mailingSession [ascii "alice", ascii "bob"]) (ascii "hi\n")) (some (ascii "0")) ∈
        (run { minTlsVersion := TLS1_2_VERSION } true
          (Conn.fresh true (mailing [ascii "alice", ascii "bob"]))).env.log := by decide +kernel
  refine ⟨_, _, stores, by decide +kernel, t, stored, by decide, fun delivered => ?_⟩
  have first : (MailStore.makeUserInboxDir .windows (ascii "data/mail") (ascii "alice")).NulFree := by
    decide
  have same := (@deliveredTo_iff _ (.lexical .windows) (ascii "data/mail") _
    (mailingSession [ascii "alice", ascii "bob"]) (ascii "hi\n") _ _ _ (by decide) stored first
    (ascii "bob")).mp delivered
  exact absurd same (by decide)

end EmailServer.Smtp
