import EmailServer.Smtp.Moves
import EmailServer.Smtp.Transcript

/-! # Mail transactions

What a client may take for the open transaction, read off the transcript: the
last `MAIL` unless something has ended the transaction since, and the recipients
accepted after it. The session keeps state, sender and recipients apart, and
only some commands write all three. After `DATA`, and after a handshake inside a
transaction, it waits for recipients although no sender is set.
-/

namespace EmailServer.Smtp

open Storage (StoredMessage)

namespace Exchange

variable (x : Exchange)

/-- `DATA` has been carried out: the code below `handleData` has run. -/
def completes : Bool :=
  x.verb == .data && x.before.session.state == .rcptTo && x.after.session.state == .mailFrom

/-- What ends a transaction. -/
def ends : Bool := x.greets || x.verb == .rset || x.startsTls || x.completes

/-- How the command changes the sender: not at all, to none, or to its argument. -/
def sender? : Option (Option Bytes) :=
  if x.ends then some none
  else if x.verb == .mail && x.accepted then some (some x.args)
  else none

/-- The recipient that the command adds. -/
def recipient? : Option Bytes := if x.verb == .rcpt && x.accepted then some x.args else none

end Exchange

/-- The sender of the open transaction. -/
def senderOf (past : List Exchange) : Option Bytes := (latest Exchange.sender? past).join

/-- The recipients since its sender was set. -/
def recipientsOf (past : List Exchange) : List Bytes :=
  (past.rtakeWhile fun x => x.sender?.isNone).filterMap Exchange.recipient?

section Fold

variable {past : List Exchange} {x : Exchange}

theorem senderOf_set {sender : Option Bytes} (set : x.sender? = some sender) :
    senderOf (past ++ [x]) = sender := by
  simp [senderOf, set]

theorem recipientsOf_set {sender : Option Bytes} (set : x.sender? = some sender) :
    recipientsOf (past ++ [x]) = [] := by
  simp [recipientsOf, set]

theorem senderOf_kept (kept : x.sender? = none) : senderOf (past ++ [x]) = senderOf past := by
  simp [senderOf, kept]

theorem recipientsOf_kept (kept : x.sender? = none) :
    recipientsOf (past ++ [x]) = recipientsOf past ++ x.recipient?.toList := by
  cases added : x.recipient? <;>
    simp [recipientsOf, kept, List.filterMap_append, added]

end Fold

/-- Inside a transaction the session agrees with its transcript, unless it waits
    for recipients of no sender. -/
def Tied (past : List Exchange) (s : SmtpSession) : Prop :=
  s.transacting = true →
    (senderOf past = some s.mailFrom ∧ recipientsOf past = s.rcptTo) ∨
      (senderOf past = none ∧ s.rcptTo = [])

namespace Tied

variable {past : List Exchange} {x : Exchange} {s t : SmtpSession}

theorem idle (outside : s.transacting = false) : Tied past s := by
  intro inside
  rw [outside] at inside
  cases inside

theorem aside (tied : Tied past s) (sender : x.sender? = none) (recipient : x.recipient? = none)
    (state : t.state = s.state) (mailFrom : t.mailFrom = s.mailFrom) (rcptTo : t.rcptTo = s.rcptTo) :
    Tied (past ++ [x]) t := by
  intro inside
  unfold SmtpSession.transacting at inside
  rw [state] at inside
  rw [senderOf_kept sender, recipientsOf_kept sender, recipient, mailFrom, rcptTo]
  simpa using tied inside

theorem ended (ends : x.ends = true) (rcptTo : t.rcptTo = []) : Tied (past ++ [x]) t := by
  intro inside
  have set : x.sender? = some none := by rw [Exchange.sender?, if_pos ends]
  exact .inr ⟨senderOf_set set, rcptTo⟩

end Tied

/-! ## Commands -/

section Commands

variable {past : List Exchange} {line : Bytes} {c d : Conn} {ended : Ended}

/-- A command that neither greets nor resets, keeps the state and does not start
    TLS changes a transaction only as an accepted `MAIL` or `RCPT`. -/
theorem Tied.unmoved (tied : Tied past c.session)
    (verb : commandVerb line ≠ .ehlo ∧ commandVerb line ≠ .helo ∧ commandVerb line ≠ .rset)
    (other : (Exchange.mk line c ended).accepted = false ∨
      commandVerb line ≠ .mail ∧ commandVerb line ≠ .rcpt)
    (tls : ended.conn.session.tlsActive = c.session.tlsActive)
    (state : ended.conn.session.state = c.session.state)
    (mailFrom : ended.conn.session.mailFrom = c.session.mailFrom)
    (rcptTo : ended.conn.session.rcptTo = c.session.rcptTo) :
    Tied (past ++ [⟨line, c, ended⟩]) ended.conn.session := by
  have ends : (Exchange.mk line c ended).ends = false := by
    simp only [Exchange.ends, Exchange.greets, Exchange.startsTls, Exchange.completes,
      Exchange.verb, Exchange.after, tls, state]
    cases c.session.tlsActive <;> cases c.session.state <;> simp [verb]
  apply tied.aside _ _ state mailFrom rcptTo
  · rcases other with refused | ⟨mail, -⟩
    · simp [Exchange.sender?, ends, refused]
    · simp [Exchange.sender?, ends, Exchange.verb, mail]
  · rcases other with refused | ⟨-, rcpt⟩
    · simp [Exchange.recipient?, refused]
    · simp [Exchange.recipient?, Exchange.verb, rcpt]

theorem Tied.answered {text : Bytes} (denied : (ascii "250").isPrefixOf text = false)
    (tied : Tied past c.session)
    (verb : commandVerb line ≠ .ehlo ∧ commandVerb line ≠ .helo ∧ commandVerb line ≠ .rset) :
    Tied (past ++ [⟨line, c, .ok (c.sendLine text)⟩]) (c.sendLine text).session := by
  have refused : (Exchange.mk line c (.ok (c.sendLine text))).accepted = false := by
    rw [Exchange.accepted, Exchange.events_eq _ [.reply text] rfl]
    simpa [Event.replies] using denied
  exact tied.unmoved verb (.inl refused) rfl rfl rfl rfl

theorem Tied.mails {cfg : Config} (admitted : Admitted cfg line c.session .mail) :
    Tied (past ++ [⟨line, c, .ok ((handleMailFrom (splitCommand line).2 c).enter .mailFrom)⟩])
      ((handleMailFrom (splitCommand line).2 c).enter .mailFrom).session := by
  generalize same :
    Exchange.mk line c (.ok ((handleMailFrom (splitCommand line).2 c).enter .mailFrom)) = x
  have accepted : x.accepted = true := by
    rw [Exchange.accepted, x.events_eq [.reply (ascii "250 OK")] (by rw [← same]; rfl)]
    decide
  have ends : x.ends = false := by
    simp [← same, Exchange.ends, Exchange.greets, Exchange.startsTls, Exchange.completes,
      Exchange.verb, Exchange.after, admitted.verb, Ended.conn, Conn.enter, handleMailFrom]
  have set : x.sender? = some (some (splitCommand line).2) := by
    simp only [Exchange.sender?, ends, accepted]
    simp [← same, Exchange.verb, Exchange.args, admitted.verb]
  intro _
  exact .inl ⟨senderOf_set set, recipientsOf_set set⟩

theorem Tied.recipient {cfg : Config} (tied : Tied past c.session)
    (admitted : Admitted cfg line c.session .rcpt) (opened : (senderOf past).isSome = true) :
    Tied (past ++ [⟨line, c, .ok ((handleRcptTo (splitCommand line).2 c).enter .rcptTo)⟩])
      ((handleRcptTo (splitCommand line).2 c).enter .rcptTo).session := by
  generalize same :
    Exchange.mk line c (.ok ((handleRcptTo (splitCommand line).2 c).enter .rcptTo)) = x
  have accepted : x.accepted = true := by
    rw [Exchange.accepted, x.events_eq [.reply (ascii "250 OK")] (by rw [← same]; rfl)]
    decide
  have ends : x.ends = false := by
    simp [← same, Exchange.ends, Exchange.greets, Exchange.startsTls, Exchange.completes,
      Exchange.verb, Exchange.after, admitted.verb, Ended.conn, Conn.enter, handleRcptTo]
  have kept : x.sender? = none := by
    simp only [Exchange.sender?, ends]
    simp [← same, Exchange.verb, admitted.verb]
  have added : x.recipient? = some (splitCommand line).2 := by
    simp only [Exchange.recipient?, accepted]
    simp [← same, Exchange.verb, Exchange.args, admitted.verb]
  intro _
  left
  rw [senderOf_kept kept, recipientsOf_kept kept, added]
  rcases tied admitted.transacting with ⟨sender, recipients⟩ | ⟨none, -⟩
  · refine ⟨sender, ?_⟩
    rw [recipients]
    rfl
  · rw [none] at opened
    cases opened

theorem Tied.hangsUp {cfg : Config} (tied : Tied past c.session)
    (verb : Admitted cfg line c.session .starttls ∨ commandVerb line = .quit)
    (session : d.session = { c.session with sockOpen := false }) :
    Tied (past ++ [⟨line, c, .ok d⟩]) d.session := by
  have other : commandVerb line ≠ .ehlo ∧ commandVerb line ≠ .helo ∧ commandVerb line ≠ .rset ∧
      commandVerb line ≠ .mail ∧ commandVerb line ≠ .rcpt := by
    rcases verb with admitted | verb
    · simp [admitted.verb]
    · simp [verb]
  apply tied.unmoved ⟨other.1, other.2.1, other.2.2.1⟩ (.inr other.2.2.2) <;>
    simp [Ended.conn, session]

theorem Tied.startsTls (inactive : c.session.tlsActive = false)
    (session : d.session = c.session.secured) :
    Tied (past ++ [⟨line, c, .ok d⟩]) d.session := by
  apply Tied.ended
  · simp [Exchange.ends, Exchange.startsTls, Exchange.after, Ended.conn, session, inactive,
      SmtpSession.secured]
  · simp [session, SmtpSession.secured]

theorem Tied.authenticates {cfg : Config} {answer : AuthAnswer}
    (tied : Tied past c.session) (admitted : Admitted cfg line c.session .auth)
    (session : d.session = c.session.answered answer) :
    Tied (past ++ [⟨line, c, .ok d⟩]) d.session := by
  by_cases accepted : answer.accepted = some true
  · apply Tied.idle
    simp [session, SmtpSession.answered, accepted, SmtpSession.transacting]
  · apply tied.unmoved
    · simp [admitted.verb]
    · simp [admitted.verb]
    all_goals simp [Ended.conn, session, SmtpSession.answered, accepted]

theorem Tied.receives {cfg : Config} (tied : Tied past c.session) (enters : EntersData cfg line c) :
    Tied (past ++ [⟨line, c, (handleData cfg c).map afterData⟩])
      (Ended.conn ((handleData cfg c).map afterData)).session := by
  have session := handleData_session cfg c
  cases handled : handleData cfg c with
  | ok d =>
      apply Tied.ended
      · simp [Exchange.ends, Exchange.completes, Exchange.verb, Exchange.after, enters.verb,
          Ended.conn, Except.map, afterData, enters.state]
      · rfl
  | error d =>
      rw [handled] at session
      have session : d.session = c.session := session
      apply tied.unmoved
      · simp [enters.verb]
      · simp [enters.verb]
      all_goals simp [Ended.conn, Except.map, session]

end Commands

/-- If the session admits a recipient, then of a transaction that is open. -/
def NeedsSender (cfg : Config) (past : List Exchange) (x : Exchange) : Prop :=
  Admitted cfg x.line x.before.session .rcpt → (senderOf past).isSome = true

instance (cfg : Config) (past : List Exchange) (x : Exchange) :
    Decidable (NeedsSender cfg past x) :=
  inferInstanceAs (Decidable (_ → _))

theorem handleCommand_tied {cfg : Config} {past : List Exchange} {x : Exchange}
    (ran : x.ended = handleCommand cfg x.line x.before) (tied : Tied past x.before.session)
    (opened : NeedsSender cfg past x) :
    Tied (past ++ [x]) x.after.session := by
  have moves := handleCommand_moves cfg x.line x.before
  rw [← ran] at moves
  obtain ⟨line, c, ended⟩ := x
  dsimp only at moves
  cases moves with
  | outOfSequence early => exact .answered (by decide) tied (outOfSequence_verb early)
  | insecure _ plain => exact .answered (by decide) tied (insecure_verb plain)
  | greets verb session _ =>
      apply Tied.idle
      simp [Exchange.after, Ended.conn, session, SmtpSession.transacting]
  | hasTls admitted _ | unauthenticated admitted _ =>
      apply Tied.answered (by decide) tied
      simp [admitted.verb]
  | hangsUp verb session _ => exact tied.hangsUp verb session
  | startsTls _ inactive session _ => exact .startsTls inactive session
  | hasAuth admitted _ =>
      apply Tied.idle
      simp [Exchange.after, Ended.conn, Conn.enter, SmtpSession.transacting]
  | authenticates _ admitted _ session _ => exact tied.authenticates admitted session
  | mails admitted _ => exact .mails admitted
  | recipient admitted => exact tied.recipient admitted (opened admitted)
  | noRecipients admitted none =>
      apply Tied.ended
      · simp [Exchange.ends, Exchange.completes, Exchange.verb, Exchange.after, admitted.verb,
          Ended.conn, afterData, admitted.rcptTo]
      · rfl
  | receives enters => exact tied.receives enters
  | resets verb session _ =>
      apply Tied.idle
      simp [Exchange.after, Ended.conn, session, SmtpSession.reset, SmtpSession.transacting]
  | replies text verb =>
      apply tied.unmoved
      · rcases verb with verb | verb <;> simp [verb]
      · rcases verb with verb | verb <;> simp [verb]
      all_goals rfl

/-- A stored message has this sender and these recipients. -/
def Event.Carries (sender : Option Bytes) (recipients : List Bytes) : Event → Prop
  | .store _ msg _ => sender = some msg.sender ∧ recipients = msg.recipients
  | _ => True

instance (sender : Option Bytes) (recipients : List Bytes) :
    DecidablePred (Event.Carries sender recipients)
  | .store _ msg _ => inferInstanceAs (Decidable (sender = some msg.sender ∧ recipients = msg.recipients))
  | .reply _ | .authenticate _ | .command _ _ | .body _ | .bodyLine _ | .socketClosed => .isTrue trivial

/-- Whatever `x` stores is the transaction that is open after `past`. -/
def StoresOpen (past : List Exchange) (x : Exchange) : Prop :=
  ∀ event ∈ x.events, event.Carries (senderOf past) (recipientsOf past)

instance (past : List Exchange) (x : Exchange) : Decidable (StoresOpen past x) :=
  inferInstanceAs (Decidable (∀ event ∈ x.events, _))

/-- For every run: as long as no recipient is admitted while no transaction is
    open, every message is stored with the sender of the open transaction and
    with the recipients accepted since that sender was set, in order. -/
theorem stores_open_transaction (cfg : Config) (allowed tlsActive : Bool) (env : Env)
    (opened : Along (NeedsSender cfg) [] (transcript cfg allowed (Conn.fresh tlsActive env))) :
    Along StoresOpen [] (transcript cfg allowed (Conn.fresh tlsActive env)) := by
  have tied : Along (fun past x => x.ended = handleCommand cfg x.line x.before ∧
      Tied past x.before.session) [] (transcript cfg allowed (Conn.fresh tlsActive env)) := by
    apply transcript_invariant _ _ (Tied.idle rfl) opened
    · intro past s time tied
      exact tied
    · intro past x ran tied needsSender
      exact handleCommand_tied ran tied needsSender
  apply tied.mono
  intro past x ⟨ran, tied⟩ event happened
  cases event with
  | store session msg answer =>
      obtain ⟨enters, -, message, rfl⟩ := Exchange.stores ran happened
      rcases tied (by simp [SmtpSession.transacting, enters.state]) with agrees | ⟨-, none⟩
      · exact agrees
      · exact absurd none enters.recipients
  | reply | authenticate | command | body | bodyLine | socketClosed => trivial

/-- A client that logs in and sends these lines. -/
def submitting (lines : List String) : Env where
  input := arriving (ascii "EHLO c\r\nAUTH PLAIN x\r\n" ++
    (lines.map fun line => ascii line ++ ascii "\r\n").flatten)
  auths := [⟨some true, ascii "alice"⟩]
  stores := [some (ascii "0"), some (ascii "1")]

/-- Two messages, each with a sender and recipients of its own. -/
theorem stores_open_transaction_twice :
    ∃ session msg answer,
      Stored (run { minTlsVersion := TLS1_2_VERSION } true (Conn.fresh true (submitting
        ["MAIL a", "RCPT b", "RCPT c", "DATA", ".", "MAIL d", "RCPT e", "DATA", "."])))
        session msg answer ∧ msg.sender = ascii "d" ∧
      Along StoresOpen [] (transcript { minTlsVersion := TLS1_2_VERSION } true (Conn.fresh true
        (submitting ["MAIL a", "RCPT b", "RCPT c", "DATA", ".", "MAIL d", "RCPT e", "DATA", "."]))) := by
  refine ⟨⟨true, .rcptTo, 0, true, true, ascii "alice", ascii "c", ascii "d", [ascii "e"]⟩,
    ⟨[], ascii "d", [ascii "e"], [], ascii "e"⟩, some (ascii "1"), ?_, rfl,
    stores_open_transaction _ _ _ _ (by decide +kernel)⟩
  show Event.store _ _ _ ∈ _
  decide +kernel

/-- After a message, another is stored for a recipient of no sender. -/
theorem stored_without_mail :
    ¬ Along StoresOpen [] (transcript { minTlsVersion := TLS1_2_VERSION } true (Conn.fresh true
      (submitting ["MAIL a", "RCPT b", "DATA", ".", "RCPT c", "DATA", "."]))) := by
  decide +kernel

end EmailServer.Smtp
