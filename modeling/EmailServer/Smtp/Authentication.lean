import EmailServer.Smtp.Moves

/-! # Authentication before submission

Only `MAIL` looks at `authed_`; `RCPT` and `DATA` look at the state. What ties
the two together is that a session inside a mail transaction is authenticated.
Every command keeps that but one: a successful `STARTTLS` cancels the
authentication and leaves the state as it is.
-/

namespace EmailServer.Smtp

/-- The line is a `STARTTLS` whose handshake succeeds. -/
def startsTls (cfg : Config) (line : Bytes) (c : Conn) : Bool :=
  commandVerb line == .starttls && !c.session.tlsActive &&
    match c.env.handshakes.headD .noSsl with
    | .accepted version cipherBits => validateTlsConnection cfg version cipherBits
    | _ => false

/-- The connection after a sequence of command lines. -/
def commands (cfg : Config) : List Bytes → Conn → Conn
  | [], c => c
  | line :: rest, c => commands cfg rest (handleCommand cfg line c).conn

/-- Along the sequence, no handshake succeeds inside a mail transaction. -/
def Calm (cfg : Config) : List Bytes → Conn → Prop
  | [], _ => True
  | line :: rest, c => ¬ (startsTls cfg line c = true ∧ c.session.transacting = true) ∧
      Calm cfg rest (handleCommand cfg line c).conn

instance decidableCalm (cfg : Config) : ∀ lines c, Decidable (Calm cfg lines c)
  | [], _ => inferInstanceAs (Decidable True)
  | line :: rest, c =>
      let _ := decidableCalm cfg rest (handleCommand cfg line c).conn
      inferInstanceAs (Decidable (_ ∧ _))

/-- A session in a mail transaction is authenticated. -/
def Authentic (s : SmtpSession) : Prop := s.transacting = true → s.authed = true

theorem Authentic.idle {s : SmtpSession} (state : s.state ≠ .mailFrom ∧ s.state ≠ .rcptTo) :
    Authentic s := by
  intro transacting
  simp [SmtpSession.transacting, state] at transacting

theorem Authentic.of_eq {s t : SmtpSession} (authentic : Authentic s) (state : t.state = s.state)
    (authed : t.authed = s.authed) : Authentic t := by
  unfold Authentic SmtpSession.transacting at authentic ⊢
  rw [state, authed]
  exact authentic

theorem handleStarttls_authentic {cfg : Config} {c : Conn} (authentic : Authentic c.session)
    {line : Bytes} (verb : commandVerb line = .starttls)
    (calm : ¬ (startsTls cfg line c = true ∧ c.session.transacting = true)) :
    Authentic (handleStarttls cfg c).session := by
  unfold handleStarttls
  split
  · exact authentic
  rename_i inactive
  dsimp only
  split
  · exact authentic.of_eq rfl rfl
  · exact authentic.of_eq rfl rfl
  · exact authentic.of_eq rfl rfl
  · rename_i version cipherBits answer
    split
    · exact authentic.of_eq rfl rfl
    · rename_i valid
      intro transacting
      refine absurd ⟨?_, transacting⟩ calm
      rw [startsTls, answer, verb]
      simpa [inactive] using valid

/-- No command but a `STARTTLS` inside a transaction breaks the tie. -/
theorem handleCommand_authentic {cfg : Config} {line : Bytes} {c : Conn}
    (authentic : Authentic c.session)
    (calm : ¬ (startsTls cfg line c = true ∧ c.session.transacting = true)) :
    Authentic (handleCommand cfg line c).conn.session := by
  by_cases starttls : commandVerb line = .starttls
  · unfold handleCommand
    simp only [starttls]
    split
    · exact authentic
    · exact handleStarttls_authentic authentic starttls calm
  have moves := handleCommand_moves cfg line c
  generalize handleCommand cfg line c = ended at moves ⊢
  cases moves with
  | outOfSequence | insecure | hasTls | unauthenticated | replies => exact authentic
  | greets _ session _ =>
      apply Authentic.idle
      simp [Ended.conn, session]
  | hangsUp _ session _ =>
      apply authentic.of_eq
      · simp [Ended.conn, session]
      · simp [Ended.conn, session]
  | startsTls admitted => exact absurd admitted.verb starttls
  | hasAuth =>
      apply Authentic.idle
      simp [Ended.conn, Conn.enter]
  | authenticates answer _ unauthed session _ =>
      intro transacting
      simp only [Ended.conn, session] at transacting ⊢
      cases accepted : answer.accepted == some true with
      | true => exact accepted
      | false =>
          simp only [SmtpSession.answered, SmtpSession.transacting, accepted] at transacting
          have authed := authentic transacting
          rw [unauthed] at authed
          cases authed
  | mails _ authed =>
      intro _
      simpa [Ended.conn, Conn.enter, handleMailFrom] using authed
  | recipient admitted =>
      intro _
      exact authentic admitted.transacting
  | noRecipients admitted =>
      have authed := authentic (by simp [SmtpSession.transacting, admitted.rcptTo])
      intro _
      simpa [Ended.conn, afterData] using authed
  | receives enters =>
      have authed := authentic (by simp [SmtpSession.transacting, enters.state])
      have kept : (handleData cfg c).conn.session.authed = true := by
        rw [handleData_session]
        exact authed
      intro _
      cases handled : handleData cfg c with
      | ok d | error d =>
          rw [handled] at kept
          exact kept
  | resets _ session _ =>
      apply Authentic.idle
      simp [Ended.conn, session, SmtpSession.reset]

/-- The invariant over a sequence of commands. -/
structure Submits (c : Conn) : Prop where
  session : Authentic c.session
  stored : ∀ session msg answer, .store session msg answer ∈ c.env.log → session.authed = true

theorem handleCommand_submits {cfg : Config} {line : Bytes} {c : Conn} (submits : Submits c)
    (calm : ¬ (startsTls cfg line c = true ∧ c.session.transacting = true)) :
    Submits (handleCommand cfg line c).conn := by
  refine ⟨handleCommand_authentic submits.session calm, ?_⟩
  intro session msg answer stored
  rcases handleCommand_stores stored with before | ⟨enters, rfl, -⟩
  · exact submits.stored session msg answer before
  · exact submits.session (by simp [SmtpSession.transacting, enters.state])

theorem commands_submits {cfg : Config} {lines : List Bytes} {c : Conn} (submits : Submits c)
    (calm : Calm cfg lines c) : Submits (commands cfg lines c) := by
  induction lines generalizing c with
  | nil => exact submits
  | cons line rest ih => exact ih (handleCommand_submits submits calm.1) calm.2

/-- For every sequence of commands and whatever handshakes and authentications
    come to: as long as no handshake succeeds inside a mail transaction, the
    session is authenticated whenever a message is stored. -/
theorem submission_authenticated (cfg : Config) (tlsActive : Bool) (env : Env) (lines : List Bytes)
    (calm : Calm cfg lines (Conn.fresh tlsActive env)) :
    ∀ session msg answer,
      .store session msg answer ∈ (commands cfg lines (Conn.fresh tlsActive env)).env.log →
        session.authed = true := by
  have fresh : Submits (Conn.fresh tlsActive env) :=
    ⟨.idle (by simp [Conn.fresh, SmtpSession.fresh]), by simp [Conn.fresh]⟩
  exact (commands_submits fresh calm).stored

/-- A session that starts TLS, logs in and submits a message. -/
theorem submission_authenticated_after_tls :
    ∃ session msg answer,
      .store session msg answer ∈ (commands { minTlsVersion := TLS1_2_VERSION }
        [ascii "EHLO client", ascii "STARTTLS", ascii "EHLO client", ascii "AUTH PLAIN xyz",
          ascii "MAIL FROM:<a@x>", ascii "RCPT bob", ascii "DATA"]
        (Conn.fresh false
          { input := arriving (ascii "hello\r\n.\r\n")
            handshakes := [.accepted TLS1_2_VERSION (some 256)]
            auths := [⟨some true, ascii "alice"⟩]
            stores := [some (ascii "1")] })).env.log ∧ session.authed = true := by
  let session : SmtpSession :=
    { SmtpSession.fresh true 0 with
      state := .rcptTo
      authed := true
      username := ascii "alice"
      heloDomain := ascii "client"
      mailFrom := ascii "FROM:<a@x>"
      rcptTo := [ascii "bob"] }
  suffices stored : _ from ⟨session, messageOf session (ascii "hello\n"), some (ascii "1"), stored,
    submission_authenticated _ _ _ _ (by decide) _ _ _ stored⟩
  decide

/-- The same handshake between `MAIL` and `RCPT`: the message is stored for a
    session that is no longer authenticated. -/
theorem unauthenticated_submission :
    ∃ session msg answer,
      .store session msg answer ∈ (commands { minTlsVersion := TLS1_2_VERSION }
        [ascii "EHLO client", ascii "AUTH PLAIN xyz", ascii "MAIL FROM:<a@x>", ascii "STARTTLS",
          ascii "RCPT bob", ascii "DATA"]
        (Conn.fresh false
          { input := arriving (ascii "hello\r\n.\r\n")
            handshakes := [.accepted TLS1_2_VERSION (some 256)]
            auths := [⟨some true, ascii "alice"⟩]
            stores := [some (ascii "1")] })).env.log ∧ session.authed = false := by
  refine ⟨{ SmtpSession.fresh true 0 with state := .rcptTo, rcptTo := [ascii "bob"] },
    ⟨[], [], [ascii "bob"], ascii "hello\n", ascii "bob"⟩, some (ascii "1"), ?_, rfl⟩
  decide

end EmailServer.Smtp
