import EmailServer.Imap.ImapSession
import EmailServer.Smtp.Moves

/-! # The ways into TLS

A session comes to run over TLS by the handshake of its server's port or by a
`STARTTLS`, in SMTP and in IMAP. Of the four, only the `STARTTLS` of SMTP checks
what was negotiated. Besides, the SMTP server constructs every session as one
with TLS, whether there is a connection or not.
-/

namespace EmailServer.Core

open Imap (TlsConnection)
open Smtp (Handshake validateTlsConnection)

/-- The connection an accepted handshake gives. -/
def handshakeSsl : Handshake → Option TlsConnection
  | .accepted version cipherBits => some ⟨version, cipherBits⟩
  | .noSsl | .notAccepted | .threw => none

/-- `validateTlsConnection` on `ssl_`, which can be null. -/
def validates (cfg : Smtp.Config) (ssl : Option TlsConnection) : Bool :=
  ssl.any fun tls => validateTlsConnection cfg tls.version tls.cipherBits

/-- A session with its `ssl_`. -/
inductive Session where
  | smtp (c : Smtp.Conn) (ssl : Option TlsConnection)
  | imap (c : Imap.Conn)

namespace Session

def tlsActive : Session → Bool
  | .smtp c _ => c.session.tlsActive
  | .imap c => c.session.tlsActive

def ssl : Session → Option TlsConnection
  | .smtp _ ssl => ssl
  | .imap c => c.session.ssl

/-- The connection that the command `line` of an SMTP session puts into `ssl_`. -/
def smtpStarttls (cfg : Smtp.Config) (line : Bytes) (c : Smtp.Conn) : Option TlsConnection :=
  if Smtp.commandVerb line = .starttls ∧ c.session.state ≠ .connected ∧
      c.session.tlsActive = false then
    (handshakeSsl (c.env.handshakes.headD .noSsl)).filter fun tls =>
      validateTlsConnection cfg tls.version tls.cipherBits
  else none

/-- In an IMAP session it is whatever the handshake gives. -/
def imapStarttls (line : Bytes) (c : Imap.Conn) : Option TlsConnection :=
  if (Imap.splitImap line).cmd.map Bytes.toUpper = ascii "STARTTLS" then
    handshakeSsl (c.env.handshakes.headD .noSsl)
  else none

/-- The session after a command. -/
def command (cfg : Smtp.Config) (line : Bytes) : Session → Session
  | .smtp c ssl => .smtp (Smtp.handleCommand cfg line c).conn ((smtpStarttls cfg line c).or ssl)
  | .imap c => .imap (Imap.handleCommand line c).conn

/-- If the session runs with TLS, its connection satisfies the policy. -/
def Meets (cfg : Smtp.Config) (s : Session) : Prop :=
  s.tlsActive = true → validates cfg s.ssl = true

/-- So it is before, between and after the commands. -/
def Complies (cfg : Smtp.Config) (s : Session) : List Bytes → Prop
  | [] => s.Meets cfg
  | line :: rest => s.Meets cfg ∧ (s.command cfg line).Complies cfg rest

/-- The command is not an IMAP `STARTTLS` whose handshake ends in a connection
    that fails the policy. -/
def Admits (cfg : Smtp.Config) (line : Bytes) : Session → Prop
  | .smtp _ _ => True
  | .imap c => ∀ tls, imapStarttls line c = some tls →
      validateTlsConnection cfg tls.version tls.cipherBits = true

/-- None of the commands is. -/
def AdmitsAll (cfg : Smtp.Config) (s : Session) : List Bytes → Prop
  | [] => True
  | line :: rest => s.Admits cfg line ∧ (s.command cfg line).AdmitsAll cfg rest

end Session

/-- How a session comes about: a server accepts a connection on its port, where
    a handshake goes as it goes; or `SmtpSession` is constructed without an SSL
    object, which no server does. -/
inductive Entry where
  | smtpServer (port : Nat) (answer : Handshake)
  | smtpPlain
  | imapServer (port : Nat) (answer : Handshake)

namespace Entry

/-- The session that is started, unless the handshake fails before. -/
def session (smtp : Smtp.Env) (imap : Imap.Env) : Entry → Option Session
  | .smtpServer port answer =>
      if port = 465 then
        (handshakeSsl answer).map fun tls => .smtp (Smtp.Conn.fresh true smtp) (some tls)
      else some (.smtp (Smtp.Conn.fresh true smtp) none)
  | .smtpPlain => some (.smtp (Smtp.Conn.fresh false smtp) none)
  | .imapServer port answer =>
      if port = 993 then
        (handshakeSsl answer).map fun tls => .imap (Imap.Conn.fresh (some tls) imap)
      else some (.imap (Imap.Conn.fresh none imap))

/-- The entry is safe: an SMTP server listens on port 465, and a handshake that
    was accepted satisfies the policy. -/
def Safe (cfg : Smtp.Config) : Entry → Prop
  | .smtpServer port answer => port = 465 ∧ validates cfg (handshakeSsl answer) = true
  | .smtpPlain => True
  | .imapServer port answer => port = 993 → validates cfg (handshakeSsl answer) = true

end Entry

/-! ## What a command does -/

namespace Session

variable {cfg : Smtp.Config} {line : Bytes}

theorem smtpStarttls_validates {c : Smtp.Conn} {tls : TlsConnection}
    (started : smtpStarttls cfg line c = some tls) :
    validateTlsConnection cfg tls.version tls.cipherBits = true := by
  unfold smtpStarttls at started
  split at started
  · exact (Option.filter_eq_some_iff.mp started).2
  · cases started

/-- In SMTP, TLS is turned on by a successful `STARTTLS` only. -/
theorem smtp_tlsActive (cfg : Smtp.Config) (line : Bytes) (c : Smtp.Conn) :
    (Smtp.handleCommand cfg line c).conn.session.tlsActive =
      ((smtpStarttls cfg line c).isSome || c.session.tlsActive) := by
  by_cases verb : Smtp.commandVerb line = .starttls
  · unfold Smtp.handleCommand
    simp only [verb]
    split
    · rename_i first
      simp [Smtp.Ended.conn, Smtp.badSequence, smtpStarttls, first]
    rename_i later
    unfold Smtp.handleStarttls
    split
    · rename_i active
      simp [Smtp.Ended.conn, active]
    rename_i inactive
    have inactive : c.session.tlsActive = false := by simpa using inactive
    have answered : smtpStarttls cfg line c = (handshakeSsl (c.env.handshakes.headD .noSsl)).filter
        fun tls => validateTlsConnection cfg tls.version tls.cipherBits :=
      if_pos ⟨verb, later, inactive⟩
    rw [answered]
    dsimp only
    generalize c.env.handshakes.headD .noSsl = answer
    cases answer with
    | noSsl | notAccepted | threw => rfl
    | accepted version cipherBits =>
        dsimp only [handshakeSsl]
        cases valid : validateTlsConnection cfg version cipherBits with
        | false =>
            rw [Option.filter_some, valid]
            rfl
        | true =>
            rw [Option.filter_some, valid]
            rfl
  · have started : smtpStarttls cfg line c = none := if_neg fun h => verb h.1
    rw [started]
    have moves := Smtp.handleCommand_moves cfg line c
    generalize Smtp.handleCommand cfg line c = ended at moves ⊢
    cases moves with
    | outOfSequence | insecure | hasTls | hasAuth | unauthenticated | mails | recipient | noRecipients
    | replies => rfl
    | greets _ session _ | hangsUp _ session _ | authenticates _ _ _ session _ =>
        simp [Smtp.Ended.conn, session, Smtp.SmtpSession.answered]
    | startsTls admitted => exact absurd admitted.verb verb
    | resets _ session _ => simp [Smtp.Ended.conn, session, Smtp.SmtpSession.reset]
    | receives enters =>
        have kept := Smtp.handleData_session cfg c
        cases handled : Smtp.handleData cfg c with
        | ok d | error d =>
            rw [handled] at kept
            have kept : d.session = c.session := kept
            simp [Except.map, Smtp.Ended.conn, Smtp.afterData, kept]

theorem handleLogin_ssl (tag args : Bytes) (c : Imap.Conn) :
    (Imap.handleLogin tag args c).conn.session.ssl = c.session.ssl ∧
      (Imap.handleLogin tag args c).conn.session.tlsActive = c.session.tlsActive := by
  unfold Imap.handleLogin
  split
  · exact ⟨rfl, rfl⟩
  dsimp only
  split
  · exact ⟨rfl, rfl⟩
  split
  · exact ⟨rfl, rfl⟩
  split
  · exact ⟨rfl, rfl⟩
  · exact ⟨rfl, rfl⟩
  · exact ⟨rfl, rfl⟩

/-- In IMAP, `ssl_` is what the last successful `STARTTLS` gave. -/
theorem imap_command (line : Bytes) (c : Imap.Conn) :
    (Imap.handleCommand line c).conn.session.ssl = (imapStarttls line c).or c.session.ssl ∧
    (Imap.handleCommand line c).conn.session.tlsActive =
      ((imapStarttls line c).isSome || c.session.tlsActive) := by
  unfold Imap.handleCommand imapStarttls
  dsimp only
  split
  · rename_i capability
    have other : ascii "CAPABILITY" ≠ ascii "STARTTLS" := by decide
    rw [if_neg (by rw [capability]; exact other)]
    exact ⟨rfl, rfl⟩
  split
  · unfold Imap.handleStarttls
    dsimp only [Imap.Conn.sendLine, Imap.Conn.record]
    generalize c.env.handshakes.headD .noSsl = answer
    cases answer with
    | noSsl | notAccepted | threw => exact ⟨rfl, rfl⟩
    | accepted version cipherBits => exact ⟨rfl, rfl⟩
  split
  · split
    · exact handleLogin_ssl _ _ c
    · exact ⟨rfl, rfl⟩
  split
  · exact ⟨rfl, rfl⟩
  · exact ⟨rfl, rfl⟩

theorem command_meets {s : Session} (meets : s.Meets cfg) :
    (s.command cfg line).Meets cfg ↔ s.Admits cfg line := by
  cases s with
  | smtp c ssl =>
      simp only [Admits, iff_true]
      simp only [Meets, command, Session.tlsActive, Session.ssl, smtp_tlsActive]
      cases started : smtpStarttls cfg line c with
      | none => exact meets
      | some tls => exact fun _ => smtpStarttls_validates started
  | imap c =>
      obtain ⟨ssl, active⟩ := imap_command line c
      simp only [Meets, command, Session.tlsActive, Session.ssl, Admits, ssl, active]
      cases started : imapStarttls line c with
      | none =>
          have kept : c.session.tlsActive = true → validates cfg c.session.ssl = true := meets
          simpa using kept
      | some tls => simp [validates]

theorem complies_iff {lines : List Bytes} {s : Session} :
    s.Complies cfg lines ↔ s.Meets cfg ∧ s.AdmitsAll cfg lines := by
  induction lines generalizing s with
  | nil => simp [Complies, AdmitsAll]
  | cons line rest ih =>
      simp only [Complies, AdmitsAll, ih]
      constructor
      · rintro ⟨meets, after, others⟩
        exact ⟨meets, (command_meets meets).mp after, others⟩
      · rintro ⟨meets, admits, others⟩
        exact ⟨meets, (command_meets meets).mpr admits, others⟩

end Session

/-- A session that was started meets the policy exactly when its entry is safe. -/
theorem Entry.session_meets {cfg : Smtp.Config} {entry : Entry} {smtp : Smtp.Env} {imap : Imap.Env}
    {s : Session} (started : entry.session smtp imap = some s) :
    s.Meets cfg ↔ entry.Safe cfg := by
  cases entry with
  | smtpServer port answer =>
      simp only [session] at started
      split at started
      · rename_i secured
        obtain ⟨tls, accepted, rfl⟩ := Option.map_eq_some_iff.mp started
        simp [Session.Meets, Session.tlsActive, Session.ssl, Smtp.Conn.fresh, Smtp.SmtpSession.fresh,
          Safe, secured, accepted]
      · rename_i plain
        cases started
        simp [Session.Meets, Session.tlsActive, Session.ssl, Smtp.Conn.fresh, Smtp.SmtpSession.fresh,
          Safe, plain, validates]
  | smtpPlain =>
      cases started
      simp [Session.Meets, Session.tlsActive, Smtp.Conn.fresh, Smtp.SmtpSession.fresh, Safe]
  | imapServer port answer =>
      simp only [session] at started
      split at started
      · rename_i secured
        obtain ⟨tls, accepted, rfl⟩ := Option.map_eq_some_iff.mp started
        simp [Session.Meets, Session.tlsActive, Session.ssl, Imap.Conn.fresh, Imap.ImapSession.fresh,
          Safe, secured, accepted]
      · rename_i plain
        cases started
        simp [Session.Meets, Session.tlsActive, Imap.Conn.fresh, Imap.ImapSession.fresh, Safe, plain]

/-- For every policy, entry, environment and sequence of commands: the session
    runs with TLS on connections that satisfy the policy only, exactly when its
    entry is safe and no IMAP `STARTTLS` accepts another connection. -/
theorem tls_policy_iff (cfg : Smtp.Config) (entry : Entry) (smtp : Smtp.Env) (imap : Imap.Env)
    (lines : List Bytes) :
    (∀ s, entry.session smtp imap = some s → s.Complies cfg lines) ↔
      ∀ s, entry.session smtp imap = some s → entry.Safe cfg ∧ s.AdmitsAll cfg lines := by
  refine forall₂_congr fun s started => ?_
  rw [Session.complies_iff, Entry.session_meets started]

/-- A 112-bit cipher on port 993, where the client has only to connect, and the
    plain port 25, where no connection is made that could satisfy the policy. -/
theorem unchecked_entries :
    (∃ s, (Entry.imapServer 993 (.accepted Smtp.TLS1_2_VERSION (some 112))).session { input := [] } {} =
      some s ∧ ¬ s.Complies { minTlsVersion := Smtp.TLS1_2_VERSION } []) ∧
    ∃ s, (Entry.smtpServer 25 .noSsl).session { input := [] } {} = some s ∧
      ¬ s.Complies { minTlsVersion := Smtp.TLS1_2_VERSION } [] := by
  refine ⟨⟨_, rfl, ?_⟩, _, rfl, ?_⟩
  all_goals
    intro complies
    exact absurd (complies rfl) (by decide)

end EmailServer.Core
