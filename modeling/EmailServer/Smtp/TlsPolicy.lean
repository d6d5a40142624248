import EmailServer.Core.ConfigLoader
import EmailServer.Smtp.Authentication

/-! # TLS policy

`tlsRequired` guards `MAIL`, `RCPT` and `DATA`, and `requireStartTls` guards
`AUTH`. Where TLS is required, a session without it never gets to a mail
transaction; its credentials are protected by the other flag only.
-/

namespace EmailServer.Smtp

/-! ## Mail transactions -/

/-- Nothing of a mail transaction is there without TLS. -/
structure Guarded (s : SmtpSession) : Prop where
  transacting : s.transacting = true → s.tlsActive = true
  mailFrom : s.mailFrom ≠ [] → s.tlsActive = true
  rcptTo : s.rcptTo ≠ [] → s.tlsActive = true

theorem Guarded.of_tls {s : SmtpSession} (tls : s.tlsActive = true) : Guarded s :=
  ⟨fun _ => tls, fun _ => tls, fun _ => tls⟩

theorem Guarded.change {s t : SmtpSession} (guarded : Guarded s) (tls : t.tlsActive = s.tlsActive)
    (transacting : t.transacting = true → s.transacting = true)
    (mailFrom : t.mailFrom = s.mailFrom ∨ t.mailFrom = [])
    (rcptTo : t.rcptTo = s.rcptTo ∨ t.rcptTo = []) : Guarded t := by
  constructor
  · intro inside
    rw [tls]
    exact guarded.transacting (transacting inside)
  · intro some
    rw [tls]
    apply guarded.mailFrom
    rcases mailFrom with same | none
    · rwa [← same]
    · exact absurd none some
  · intro some
    rw [tls]
    apply guarded.rcptTo
    rcases rcptTo with same | none
    · rwa [← same]
    · exact absurd none some

/-- Every command keeps the guard, and no command gives TLS up. -/
theorem handleCommand_guarded {cfg : Config} (required : cfg.tlsRequired = true) {line : Bytes}
    {c : Conn} (guarded : Guarded c.session) :
    Guarded (handleCommand cfg line c).conn.session ∧
      (c.session.tlsActive = true → (handleCommand cfg line c).conn.session.tlsActive = true) := by
  have secure : ∀ {v}, Admitted cfg line c.session v → v = .mail ∨ v = .rcpt ∨ v = .data →
      c.session.tlsActive = true := by
    intro v admitted verb
    have secure := admitted.secure
    rcases verb with rfl | rfl | rfl <;>
      simpa [EmailServer.Smtp.insecure, SmtpSession.tlsRequiredAndMissing, required] using secure
  have moves := handleCommand_moves cfg line c
  generalize handleCommand cfg line c = ended at moves ⊢
  cases moves with
  | outOfSequence | insecure | hasTls | unauthenticated | replies => exact ⟨guarded, id⟩
  | greets _ session _ | resets _ session _ | hangsUp _ session _ =>
      simp only [Ended.conn, session]
      constructor
      · apply guarded.change <;> simp [SmtpSession.transacting, SmtpSession.reset]
      · exact id
  | startsTls _ _ session _ =>
      simp only [Ended.conn, session]
      exact ⟨.of_tls rfl, fun _ => rfl⟩
  | hasAuth =>
      constructor
      · apply guarded.change <;> simp [Ended.conn, Conn.enter, SmtpSession.transacting]
      · exact id
  | authenticates answer _ _ session _ =>
      simp only [Ended.conn, session]
      constructor
      · apply guarded.change
        · rfl
        · by_cases accepted : answer.accepted = some true <;>
            simp [SmtpSession.answered, SmtpSession.transacting, accepted]
        · exact .inl rfl
        · exact .inl rfl
      · exact id
  | mails admitted _ =>
      have tls := secure admitted (.inl rfl)
      exact ⟨.of_tls tls, fun _ => tls⟩
  | recipient admitted =>
      have tls := secure admitted (.inr (.inl rfl))
      exact ⟨.of_tls tls, fun _ => tls⟩
  | noRecipients admitted _ =>
      have tls := secure admitted (.inr (.inr rfl))
      exact ⟨.of_tls tls, fun _ => tls⟩
  | receives enters =>
      have tls : c.session.tlsActive = true := by
        simpa [SmtpSession.tlsRequiredAndMissing, required] using enters.tls
      have session := handleData_session cfg c
      cases handled : handleData cfg c with
      | ok d | error d =>
          rw [handled] at session
          have kept : d.session.tlsActive = true := by
            rw [show d.session = c.session from session]
            exact tls
          exact ⟨.of_tls kept, fun _ => kept⟩

/-- The invariant over a sequence of commands. -/
structure Secure (c : Conn) : Prop where
  session : Guarded c.session
  stored : ∀ session msg answer, .store session msg answer ∈ c.env.log → session.tlsActive = true

theorem handleCommand_secure {cfg : Config} (required : cfg.tlsRequired = true) {line : Bytes}
    {c : Conn} (secure : Secure c) : Secure (handleCommand cfg line c).conn := by
  constructor
  · exact (handleCommand_guarded required secure.session).1
  · intro session msg answer stored
    rcases handleCommand_stores stored with before | ⟨enters, rfl, -⟩
    · exact secure.stored session msg answer before
    · exact secure.session.rcptTo enters.recipients

theorem commands_secure {cfg : Config} (required : cfg.tlsRequired = true) {lines : List Bytes}
    {c : Conn} (secure : Secure c) :
    Secure (commands cfg lines c) ∧
      (c.session.tlsActive = true → (commands cfg lines c).session.tlsActive = true) := by
  induction lines generalizing c with
  | nil => exact ⟨secure, id⟩
  | cons line rest ih =>
      have next : Secure (handleCommand cfg line c).conn := handleCommand_secure required secure
      have ⟨last, later⟩ := ih next
      exact ⟨last, fun tls => later ((handleCommand_guarded required secure.session).2 tls)⟩

/-- Where TLS is required, for every sequence of commands on a session started
    without it and whatever handshakes and authentications come to: a session
    that is in a mail transaction or holds a sender or recipients has TLS, TLS is
    never given up, and messages are stored with TLS only. -/
theorem transactions_secure (cfg : Config) (required : cfg.tlsRequired = true) (env : Env)
    (lines : List Bytes) :
    let c := commands cfg lines (Conn.fresh false env)
    (c.session.state = .mailFrom ∨ c.session.state = .rcptTo → c.session.tlsActive = true) ∧
    (c.session.mailFrom ≠ [] ∨ c.session.rcptTo ≠ [] → c.session.tlsActive = true) ∧
    (c.session.tlsActive = true → ∀ more, (commands cfg more c).session.tlsActive = true) ∧
    ∀ session msg answer, .store session msg answer ∈ c.env.log → session.tlsActive = true := by
  have fresh : Secure (Conn.fresh false env) := by
    constructor
    · constructor <;> simp [Conn.fresh, SmtpSession.fresh, SmtpSession.transacting]
    · simp [Conn.fresh]
  have secure : Secure (commands cfg lines (Conn.fresh false env)) :=
    (commands_secure required fresh).1
  refine ⟨?_, ?_, ?_, secure.stored⟩
  · intro inside
    exact secure.session.transacting (by simpa [SmtpSession.transacting] using inside)
  · intro some
    exact some.elim secure.session.mailFrom secure.session.rcptTo
  · intro tls more
    exact (commands_secure required secure).2 tls

/-- A session that starts TLS and submits a message. -/
theorem transactions_secure_submission :
    ∃ session msg answer,
      .store session msg answer ∈ (commands
        { minTlsVersion := TLS1_2_VERSION, tlsRequired := true }
        [ascii "EHLO c", ascii "STARTTLS", ascii "EHLO c", ascii "AUTH PLAIN x", ascii "MAIL a",
          ascii "RCPT b", ascii "DATA"]
        (Conn.fresh false
          { input := arriving (ascii "hello\r\n.\r\n")
            handshakes := [.accepted TLS1_2_VERSION (some 256)]
            auths := [⟨some true, ascii "alice"⟩]
            stores := [some (ascii "1")] })).env.log ∧ session.tlsActive = true := by
  let session : SmtpSession :=
    ⟨true, .rcptTo, 0, true, true, ascii "alice", ascii "c", ascii "a", [ascii "b"]⟩
  suffices stored : _ from ⟨session, messageOf session (ascii "hello\n"), some (ascii "1"), stored,
    (transactions_secure _ rfl _ _).2.2.2 _ _ _ stored⟩
  decide

/-! ## Credentials -/

/-- Along every sequence of commands, `authenticateSmtp` is called with TLS only. -/
def CredentialsSecure (cfg : Config) : Prop :=
  ∀ tlsActive env lines line args,
    let c := commands cfg lines (Conn.fresh tlsActive env)
    .authenticate args ∈ since c (handleCommand cfg line c).conn → c.session.tlsActive = true

theorem handleCommand_asks {cfg : Config} {line : Bytes} {c : Conn}
    (admitted : Admitted cfg line c.session .auth) (unauthed : c.session.authed = false) :
    .authenticate (splitCommand line).2 ∈ since c (handleCommand cfg line c).conn := by
  have other : ∀ {v}, commandVerb line = v → v ≠ .auth → False := by
    intro v verb different
    exact different (verb.symm.trans admitted.verb)
  have moves := handleCommand_moves cfg line c
  generalize handleCommand cfg line c = ended at moves ⊢
  cases moves with
  | outOfSequence early =>
      rw [admitted.verb, admitted.sequence] at early
      cases early
  | insecure _ plain =>
      rw [admitted.verb, admitted.secure] at plain
      cases plain
  | authenticates answer _ _ _ log =>
      have events : since c (Ended.conn (.ok _)) = [.reply _, .authenticate _] := since_eq log
      rw [events]
      simp
  | hasAuth _ authed =>
      rw [unauthed] at authed
      cases authed
  | greets verb _ _ | replies _ verb => exact (verb.elim (other · nofun) (other · nofun)).elim
  | hangsUp verb _ _ => exact (verb.elim (other ·.verb nofun) (other · nofun)).elim
  | hasTls h _ | startsTls h _ _ _ | unauthenticated h _ | mails h _ | recipient h
  | noRecipients h _ | receives h => exact (other h.verb nofun).elim
  | resets verb _ _ => exact (other verb nofun).elim

theorem authenticates_plain {cfg : Config} (permitted : cfg.requireStartTls = false) :
    ∃ args, let c := commands cfg [ascii "EHLO c"] (Conn.fresh false { input := [] })
      .authenticate args ∈ since c (handleCommand cfg (ascii "AUTH PLAIN x") c).conn ∧
        c.session.tlsActive = false := by
  let c := commands cfg [ascii "EHLO c"] (Conn.fresh false { input := [] })
  have verb : commandVerb (ascii "EHLO c") = .ehlo := by decide
  have session : c.session = { SmtpSession.fresh false 0 with
      state := .heloEhlo
      heloDomain := (splitCommand (ascii "EHLO c")).2 } := by
    simp only [c, commands, handleCommand, verb]
    simp [Ended.conn, Conn.enter, handleEhlo, sendMultilineResponse_session, Conn.fresh]
  refine ⟨_, handleCommand_asks ⟨by decide, ?_, ?_⟩ ?_, ?_⟩
  · show outOfSequence c.session .auth = false
    simp [session, outOfSequence]
  · show EmailServer.Smtp.insecure cfg c.session .auth = false
    simp [EmailServer.Smtp.insecure, SmtpSession.startTlsRequiredAndMissing, permitted]
  · show c.session.authed = false
    simp [session, SmtpSession.fresh]
  · show c.session.tlsActive = false
    simp [session, SmtpSession.fresh]

theorem credentialsSecure_iff (cfg : Config) : CredentialsSecure cfg ↔ cfg.requireStartTls = true := by
  constructor
  · intro secure
    by_contra permitted
    obtain ⟨args, asked, plain⟩ := authenticates_plain (by simpa using permitted)
    rw [secure _ _ _ _ _ asked] at plain
    cases plain
  · intro required tlsActive env lines line args c asked
    have secure := (handleCommand_authenticates asked).secure
    simpa [EmailServer.Smtp.insecure, SmtpSession.startTlsRequiredAndMissing, required] using secure

/-- For every configuration that the loader accepts with `tls_required`: no
    credentials travel without TLS if and only if it has `require_starttls` too. -/
theorem credentials_secure_iff (cfg : Core.ServerConfig) (t t' : Core.TlsEnforcement)
    (accepted : Core.ConfigLoader.validateConfig cfg = .ok ()) (required : cfg.tlsRequired = true)
    (loaded : Core.ConfigLoader.loadFromFile cfg t = .ok t') :
    t'.tlsRequired = true ∧
      (CredentialsSecure (Core.sessionConfig cfg t') ↔ cfg.requireStartTls = true) := by
  obtain ⟨version, -, enforced⟩ := Core.loadFromFile_accepted t accepted
  rw [loaded] at enforced
  cases enforced
  exact ⟨required, credentialsSecure_iff _⟩

/-- A configuration that requires TLS. -/
def tlsConfig (requireStartTls : Bool) : Core.ServerConfig where
  tlsRequired := true
  requireStartTls := requireStartTls
  tlsCertFile := ascii "cert.pem"
  tlsKeyFile := ascii "key.pem"
  hasMinTlsVersion := true
  minTlsVersion := 3

/-- With both flags credentials are secure. -/
theorem credentials_secure_both : ∃ t,
    Core.ConfigLoader.loadFromFile (tlsConfig true) {} = .ok t ∧
      CredentialsSecure (Core.sessionConfig (tlsConfig true) t) :=
  ⟨⟨true, true, TLS1_2_VERSION⟩, by decide,
    (credentials_secure_iff (tlsConfig true) {} _ (by decide) rfl (by decide)).2.mpr rfl⟩

/-- Without `require_starttls`, a session that requires TLS takes credentials in
    the clear. -/
theorem credentials_in_the_clear : ∃ t,
    Core.ConfigLoader.validateConfig (tlsConfig false) = .ok () ∧
      Core.ConfigLoader.loadFromFile (tlsConfig false) {} = .ok t ∧
      ¬ CredentialsSecure (Core.sessionConfig (tlsConfig false) t) := by
  refine ⟨⟨true, false, TLS1_2_VERSION⟩, by decide, by decide, ?_⟩
  intro secure
  have asked := secure false { input := [] } [ascii "EHLO c"] (ascii "AUTH PLAIN x") (ascii "PLAIN x")
    (by decide)
  exact absurd asked (by decide)

end EmailServer.Smtp
