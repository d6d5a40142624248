import EmailServer.Library.History
import EmailServer.Library.TextSearch
import EmailServer.Smtp.Delivery
import EmailServer.Smtp.Moves

/-! # The header of a stored message

`store` writes sender, recipients and identifier as they are. None of them has a line
end in it: the envelope consists of arguments of lines that `readLine` has cut, and the
identifier of digits. So every written line is a line of its own.
-/

namespace EmailServer.Smtp

open Bytes (crlf cutAtWord find upTo)
open Storage (StoredMessage MailStore.store MailStore.makeMessagePath MailStore.composed
  MailStore.idAt mailPlatform mayFail)

/-- A text without a line end. -/
structure OneLine (text : Bytes) : Prop where
  cr : Bytes.cr ∉ text
  lf : Bytes.lf ∉ text

theorem OneLine.of_subset {text part : Bytes} (oneLine : OneLine text) (within : part ⊆ text) :
    OneLine part := ⟨fun there => oneLine.cr (within there), fun there => oneLine.lf (within there)⟩

theorem OneLine.append {first second : Bytes} (one : OneLine first) (two : OneLine second) :
    OneLine (first ++ second) where
  cr there := (List.mem_append.mp there).elim one.cr two.cr
  lf there := (List.mem_append.mp there).elim one.lf two.lf

/-! ## What a session stores -/

theorem readFrom_oneLine {errors : Nat} {out line : Bytes} {input rest : List Recv}
    (oneLine : OneLine out) (read : readFrom errors out input = (.line line, rest)) :
    OneLine line := by
  induction input generalizing errors out with
  | nil => cases read
  | cons r tail ih =>
      cases r with
      | closed | threw | escaped => cases read
      | failed =>
          simp only [readFrom] at read
          split at read
          · cases read
          · exact ih oneLine read
      | byte c =>
          simp only [readFrom] at read
          split at read
          · exact ih oneLine read
          rename_i notCr
          split at read
          · cases read
            exact oneLine
          rename_i notLf
          split at read
          · cases read
          · have single : OneLine [c] :=
              ⟨by simpa using Ne.symm notCr, by simpa using Ne.symm notLf⟩
            exact ih (oneLine.append single) read

theorem nextCommand_oneLine {cfg : Config} {c c' : Conn} {line : Bytes}
    (head : nextCommand cfg c = .command line c') : OneLine line := by
  have empty : OneLine [] := ⟨List.not_mem_nil, List.not_mem_nil⟩
  unfold nextCommand at head
  split at head
  · cases head
  · cases head
  · cases head
  · rename_i read
    dsimp only at head
    split at head
    · cases head
    · cases head
      exact readFrom_oneLine empty (readLine_line read).1

theorem splitCommand_oneLine {line : Bytes} (oneLine : OneLine line) :
    OneLine (splitCommand line).2 := by
  refine oneLine.of_subset ?_
  have args : ((line.dropWhile Bytes.isSpace).dropWhile fun b => !Bytes.isSpace b).takeWhile
      (· != Bytes.lf) ⊆ line :=
    ((List.takeWhile_sublist _).trans ((List.dropWhile_sublist _).trans
      (List.dropWhile_sublist _))).subset
  unfold splitCommand
  dsimp only
  split
  · exact List.Subset.trans (List.tail_subset _) args
  · exact args

/-- Sender and recipients are texts of one line. -/
structure SmtpSession.OneLined (s : SmtpSession) : Prop where
  mailFrom : OneLine s.mailFrom
  rcptTo : ∀ rcpt ∈ s.rcptTo, OneLine rcpt

theorem SmtpSession.OneLined.of_nil {s : SmtpSession} (mailFrom : s.mailFrom = [])
    (rcptTo : s.rcptTo = []) : s.OneLined := by
  refine ⟨?_, ?_⟩
  · rw [mailFrom]
    exact ⟨List.not_mem_nil, List.not_mem_nil⟩
  · rw [rcptTo]
    exact fun _ there => absurd there List.not_mem_nil

theorem handleCommand_oneLined {cfg : Config} {line : Bytes} {c : Conn} (oneLine : OneLine line)
    (oneLined : c.session.OneLined) : (handleCommand cfg line c).conn.session.OneLined := by
  have args := splitCommand_oneLine oneLine
  have same : ∀ {s : SmtpSession}, s.mailFrom = c.session.mailFrom →
      s.rcptTo = c.session.rcptTo → s.OneLined := fun mailFrom rcptTo =>
    ⟨mailFrom ▸ oneLined.mailFrom, rcptTo ▸ oneLined.rcptTo⟩
  have moves := handleCommand_moves cfg line c
  generalize handleCommand cfg line c = ended at moves ⊢
  cases moves with
  | outOfSequence | insecure | hasTls | unauthenticated | replies | hasAuth => exact same rfl rfl
  | greets _ session | hangsUp _ session =>
      exact same (by rw [Ended.conn, session]) (by rw [Ended.conn, session])
  | authenticates _ _ _ session =>
      exact same (by rw [Ended.conn, session]; rfl) (by rw [Ended.conn, session]; rfl)
  | startsTls _ _ session | resets _ session =>
      exact .of_nil (by rw [Ended.conn, session]; rfl) (by rw [Ended.conn, session]; rfl)
  | mails => exact ⟨args, fun _ there => absurd there List.not_mem_nil⟩
  | recipient =>
      exact ⟨oneLined.mailFrom, forall_concat oneLined.rcptTo args⟩
  | noRecipients => exact .of_nil rfl rfl
  | receives =>
      have kept := handleData_session cfg c
      cases received : handleData cfg c with
      | ok d => exact .of_nil rfl rfl
      | error d =>
          rw [received] at kept
          exact same (congrArg SmtpSession.mailFrom kept) (congrArg SmtpSession.rcptTo kept)

/-- The envelope consists of texts of one line, now and in everything stored so far. -/
structure OneLined (c : Conn) : Prop where
  now : c.session.OneLined
  stored : ∀ session msg answer, .store session msg answer ∈ c.env.log → session.OneLined

theorem OneLined.logs {c c' : Conn} (oneLined : OneLined c) {P : Event → Prop}
    (same : c'.session.mailFrom = c.session.mailFrom ∧ c'.session.rcptTo = c.session.rcptTo)
    (logs : Logs P c c') (never : ∀ session msg answer, ¬ P (.store session msg answer)) :
    OneLined c' := by
  refine ⟨⟨same.1 ▸ oneLined.now.mailFrom, same.2 ▸ oneLined.now.rcptTo⟩, ?_⟩
  obtain ⟨new, log, each⟩ := logs
  intro session msg answer stored
  rw [log] at stored
  exact oneLined.stored session msg answer ((List.mem_append.mp stored).resolve_left
    fun member => never session msg answer (each _ member))

theorem OneLined.command {cfg : Config} {line : Bytes} {c : Conn} (oneLine : OneLine line)
    (oneLined : OneLined c) : OneLined (isolate (handleCommand cfg line c)) := by
  have ended : OneLined (handleCommand cfg line c).conn := by
    refine ⟨handleCommand_oneLined oneLine oneLined.now, fun session msg answer stored => ?_⟩
    rcases handleCommand_stores stored with before | ⟨-, rfl, -⟩
    · exact oneLined.stored session msg answer before
    · exact oneLined.now
  cases handled : handleCommand cfg line c with
  | ok d | error d =>
      rw [handled] at ended
      exact ended.logs ⟨rfl, rfl⟩ (P := Event.isReply)
        (by first | exact .refl _ | exact (Logs.refl _).record trivial) fun _ _ _ => id

/-- In every run the envelope consists of texts of one line. -/
theorem run_oneLined (cfg : Config) (allowed tlsActive : Bool) (env : Env) :
    OneLined (run cfg allowed (Conn.fresh tlsActive env)) := by
  refine run_invariant (P := fun _ _ => True) (fun c c' oneLined waits => ?_)
    (fun c line c' oneLined head _ => ?_) (fun c oneLined => ?_)
    (throughout_always cfg (fun _ _ => trivial) _ _) ?_
  · exact oneLined.logs (by rw [waits.session]; exact ⟨rfl, rfl⟩) waits.log fun _ _ _ => id
  · refine OneLined.command (nextCommand_oneLine head) ?_
    rcases nextCommand_cases cfg c with ⟨d, other, -⟩ | ⟨d, other, -⟩ |
      ⟨line, d, same, session, log, -⟩
    · rw [head] at other
      cases other
    · rw [head] at other
      cases other
    · rw [head] at same
      cases same
      have read : Logs (fun event => ∃ line unread, event = .command line unread) c c' :=
        ⟨[_], log, by simp⟩
      exact oneLined.logs (by rw [session]; exact ⟨rfl, rfl⟩) read (by simp)
  · have closed : Logs (fun event => event = .socketClosed) c (c.record .socketClosed) :=
      (Logs.refl c).record rfl
    exact oneLined.logs ⟨rfl, rfl⟩ closed (by simp)
  · exact ⟨.of_nil rfl rfl, by simp [Conn.fresh]⟩

/-! ## What is written -/

/-- The header that `store` writes for these. -/
def headerLines (mailFrom : Bytes) (rcptTo : List Bytes) (id : Bytes) : List Bytes :=
  (ascii "From: " ++ mailFrom) :: (rcptTo.map (ascii "To: " ++ ·) ++
    [ascii "Message-ID: <" ++ id ++ ascii "@local>"])

/-- The content is cut at its first empty line, and what is before it at the line ends. -/
structure Parted (content mailFrom : Bytes) (rcptTo : List Bytes) (id rawData : Bytes) : Prop where
  body : find (crlf ++ crlf) content = some (crlf ++ crlf ++ rawData)
  header : cutAtWord crlf (upTo (crlf ++ crlf) content) = headerLines mailFrom rcptTo id

/-- A content is parted in one way only. -/
theorem Parted.unique {content mailFrom mailFrom' : Bytes} {rcptTo rcptTo' : List Bytes}
    {id id' rawData rawData' : Bytes} (parted : Parted content mailFrom rcptTo id rawData)
    (other : Parted content mailFrom' rcptTo' id' rawData') :
    mailFrom' = mailFrom ∧ rcptTo' = rcptTo ∧ id' = id ∧ rawData' = rawData := by
  have bodies := parted.body.symm.trans other.body
  have headers := parted.header.symm.trans other.header
  obtain ⟨sender, later⟩ := List.cons.inj headers
  obtain ⟨recipients, last⟩ := List.append_inj' later rfl
  have prefixed : Function.Injective (ascii "To: " ++ ·) := fun _ _ => List.append_cancel_left
  refine ⟨(List.append_cancel_left sender).symm, (List.map_injective_iff.mpr prefixed recipients).symm,
    ?_, (List.append_cancel_left (Option.some.inj bodies)).symm⟩
  have identifier := List.append_cancel_right (List.singleton_inj.mp last)
  exact (List.append_cancel_left identifier).symm

theorem composed_parted {msg : StoredMessage} {id : Bytes} (sender : OneLine msg.sender)
    (recipients : ∀ rcpt ∈ msg.recipients, OneLine rcpt) (identifier : OneLine id) :
    Parted (MailStore.composed msg id) msg.sender msg.recipients id msg.rawData ∧
      ∀ line ∈ headerLines msg.sender msg.recipients id, OneLine line := by
  have lines : ∀ line ∈ headerLines msg.sender msg.recipients id, OneLine line := by
    intro line there
    rcases List.mem_cons.mp there with rfl | there
    · exact OneLine.append ⟨by decide, by decide⟩ sender
    rcases List.mem_append.mp there with there | there
    · obtain ⟨rcpt, inside, rfl⟩ := List.mem_map.mp there
      exact OneLine.append ⟨by decide, by decide⟩ (recipients rcpt inside)
    · obtain rfl := List.mem_singleton.mp there
      exact (OneLine.append ⟨by decide, by decide⟩ identifier).append ⟨by decide, by decide⟩
  have nonempty : ∀ line ∈ headerLines msg.sender msg.recipients id, line ≠ [] := by
    intro line there
    rcases List.mem_cons.mp there with rfl | there
    · simp [ascii]
    rcases List.mem_append.mp there with there | there
    · obtain ⟨rcpt, -, rfl⟩ := List.mem_map.mp there
      simp [ascii]
    · obtain rfl := List.mem_singleton.mp there
      simp [ascii]
  have written : MailStore.composed msg id =
      crlf.intercalate (headerLines msg.sender msg.recipients id) ++ (crlf ++ crlf) ++
        msg.rawData := by
    rw [← List.append_assoc (crlf.intercalate _), headerLines, ← Bytes.crlfLines_join]
    have ends : ascii "\r\n" = crlf := by decide
    have last : ascii "@local>\r\n" = ascii "@local>" ++ crlf := by decide
    simp [MailStore.composed, Bytes.crlfLines, List.flatMap_def, ends, last, Function.comp_def]
  have found : find (crlf ++ crlf)
      (crlf.intercalate (headerLines msg.sender msg.recipients id) ++ (crlf ++ crlf) ++
        msg.rawData) = some (crlf ++ crlf ++ msg.rawData) :=
    Bytes.find_emptyLine (fun line there => (lines line there).cr)
      fun line there => nonempty line (List.mem_cons_of_mem _ there)
  rw [written]
  refine ⟨⟨found, ?_⟩, lines⟩
  rw [Bytes.upTo_found found]
  exact Bytes.cutAtWord_join fun line there => (lines line there).cr

/-- In every run, for every message that the session stores: a call of `store` that returns
    an identifier, on any disk and whatever fails, has written a content that is cut into the
    sender, the recipients in order, the identifier and the data of the message, and in no
    other way; no line of its header has a line end in it. -/
theorem stored_parted {syn : PathSyntax} (names : Naming syn) (rootDir : Bytes) (cfg : Config)
    (allowed tlsActive : Bool) (env : Env) (session : SmtpSession) (msg : StoredMessage)
    (answer : Option Bytes)
    (stored : .store session msg answer ∈ (run cfg allowed (Conn.fresh tlsActive env)).env.log)
    (fails : FsOp FsPath FsPath → Prop) (s t : Disk FsPath) (id : Bytes) (nonempty : id ≠ [])
    (returned : (MailStore.store syn rootDir msg).Runs (mailPlatform names fails).Effect s (.ok id) t) :
    ∃ content, t.contents (names.locate (MailStore.makeMessagePath syn rootDir msg.mailboxUser id)) =
        some content ∧
      Parted content session.mailFrom session.rcptTo id msg.rawData ∧
      (∀ line ∈ headerLines session.mailFrom session.rcptTo id, OneLine line) ∧
      ∀ mailFrom rcptTo id' rawData, Parted content mailFrom rcptTo id' rawData →
        mailFrom = session.mailFrom ∧ rcptTo = session.rcptTo ∧ id' = id ∧
          rawData = msg.rawData := by
  have oneLined := (run_oneLined cfg allowed tlsActive env).stored session msg answer stored
  obtain ⟨message, rfl⟩ := run_storesOwn cfg allowed tlsActive env session msg answer stored
  have digits : OneLine id := by
    rw [Storage.store_id nonempty returned, ← Storage.MailStore.idAt_generated rfl]
    exact ⟨fun there => absurd (toDecimal_digit there) (by decide),
      fun there => absurd (toDecimal_digit there) (by decide)⟩
  obtain ⟨parted, lines⟩ := @composed_parted (messageOf session message) _ oneLined.mailFrom
    oneLined.rcptTo digits
  exact ⟨_, Storage.store_success nonempty returned, parted, lines, fun _ _ _ _ => parted.unique⟩

/-- A message of a client that has logged in. -/
theorem stored_parted_alice : ∃ t content,
    (MailStore.store .windows (ascii "data/mail")
        (messageOf (mailingSession [ascii "alice"]) (ascii "hi\n"))).Runs
      (mailPlatform (.lexical .windows) mayFail).Effect Storage.aliceDisk (.ok (ascii "0")) t ∧
    t.contents ((Naming.lexical .windows).locate (MailStore.makeMessagePath .windows
      (ascii "data/mail") (ascii "alice") (ascii "0"))) = some content ∧
    Parted content (ascii "FROM:<a>") [ascii "alice"] (ascii "0") (ascii "hi\n") := by
  obtain ⟨t, returned, -⟩ := Storage.store_runs .windows (.lexical .windows) (ascii "data/mail") mayFail
    (messageOf (mailingSession [ascii "alice"]) (ascii "hi\n")) Storage.aliceDisk
    (by decide) (by decide) (by decide)
  obtain ⟨content, there, parted, -⟩ := stored_parted (.lexical .windows) (ascii "data/mail")
    { minTlsVersion := TLS1_2_VERSION } true true (mailing [ascii "alice"])
    (mailingSession [ascii "alice"]) _ (some (ascii "0")) (by decide +kernel) mayFail
    Storage.aliceDisk t (ascii "0") (by decide) returned
  exact ⟨t, content, returned, there, parted⟩

end EmailServer.Smtp
