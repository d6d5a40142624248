import EmailServer.Auth.Interchange
import EmailServer.Library.Trace
import EmailServer.Smtp.Moves

/-! # Whose session it is

`authenticateSmtp` writes the user name into the session before the password is
validated, and `authed_` is set and cleared by other code. A session that is
authenticated nevertheless carries the name of whoever logged in last.
-/

namespace EmailServer.Smtp

open Auth

/-- A command line, with the users and the cryptography its `AUTH` would meet. -/
structure Asked where
  line : Bytes
  ssl : OpenSsl
  users : Users

/-- What `AuthManager::authenticateSmtp` answers and the name it leaves behind.
    When the verification throws, the name has been written. -/
def authAnswer (base64Decode : Bytes → Bytes) (asked : Asked) (args username : Bytes) :
    AuthAnswer :=
  match AuthManager.authenticateSmtp asked.ssl base64Decode asked.users args with
  | some (answer, name) => ⟨some answer, name.getD username⟩
  | none =>
      ⟨none, ((AuthManager.plainCredentials (base64Decode (args.drop 6))).map Prod.fst).getD username⟩

/-- The connection when the next authentication is going to be answered so. -/
def Conn.expecting (c : Conn) (answer : AuthAnswer) : Conn :=
  { c with env := { c.env with auths := [answer] } }

/-- A command of a session that uses the local auth manager. -/
def serve (cfg : Config) (base64Decode : Bytes → Bytes) (asked : Asked) (c : Conn) : Conn :=
  (handleCommand cfg asked.line (c.expecting
    (authAnswer base64Decode asked (splitCommand asked.line).2 c.session.username))).conn

/-- One command of such a session. -/
def Serves (cfg : Config) (base64Decode : Bytes → Bytes) (c : Conn) (asked : Asked) (d : Conn) :
    Prop :=
  d = serve cfg base64Decode asked c

/-- The step is an `AUTH PLAIN` with the user's name and a password that is valid
    for it at the time. -/
def LogsInAs (base64Decode : Bytes → Bytes) (user : Bytes) (x : Taken Asked Conn) : Prop :=
  commandVerb x.label.line = .auth ∧ ∃ s authzid pass,
    (splitCommand x.label.line).2 = ascii "PLAIN " ++ s ∧
    base64Decode s = authzid ++ 0 :: (user ++ 0 :: pass) ∧ 0 ∉ authzid ∧ 0 ∉ user ∧
    AuthManager.validate x.label.ssl x.label.users user pass = some true

/-- The step is an `RSET`, or a `STARTTLS` that turned TLS on. -/
def CancelsLogin (x : Taken Asked Conn) : Prop :=
  commandVerb x.label.line = .rset ∨
    commandVerb x.label.line = .starttls ∧ x.before.session.tlsActive = false ∧
      x.after.session.tlsActive = true

/-- The command was answered as a successful authentication. -/
def Granted (x : Taken Asked Conn) : Prop :=
  .reply (authReply (some true)) ∈ since x.before x.after

/-! ## The parser -/

theorem authAnswer_accepted {base64Decode : Bytes → Bytes} {asked : Asked} {args username : Bytes}
    (accepted : (authAnswer base64Decode asked args username).accepted = some true) :
    ∃ s authzid user pass, args = ascii "PLAIN " ++ s ∧
      base64Decode s = authzid ++ 0 :: (user ++ 0 :: pass) ∧ 0 ∉ authzid ∧ 0 ∉ user ∧
      AuthManager.validate asked.ssl asked.users user pass = some true ∧
      (authAnswer base64Decode asked args username).username = user := by
  generalize answered : authAnswer base64Decode asked args username = answer at accepted ⊢
  unfold authAnswer AuthManager.authenticateSmtp at answered
  split at answered
  · rename_i granted name found
    subst answered
    obtain rfl : granted = true := by simpa using accepted
    split at found
    · cases found
    rename_i plain
    split at found
    · cases found
    rename_i user pass credentials
    obtain ⟨valid, validated, same⟩ := Option.map_eq_some_iff.mp found
    obtain ⟨rfl, rfl⟩ := Prod.mk.inj same
    obtain ⟨⟨authzid, rest⟩, outer, inner⟩ := Option.bind_eq_some_iff.mp credentials
    refine ⟨args.drop 6, authzid, user, pass, ?_, ?_, Bytes.cut_clean outer,
      Bytes.cut_clean inner, validated, rfl⟩
    · rw [← not_not.mp plain, List.take_append_drop]
    · exact (Bytes.cut_eq outer).trans (by rw [show rest = _ from Bytes.cut_eq inner])
  · subst answered
    cases accepted

/-! ## What a command does to the identity -/

theorem handleCommand_auth {cfg : Config} {line : Bytes} {c : Conn} {answer : AuthAnswer}
    (verb : commandVerb line = .auth)
    (answers : c.env.auths.headD ⟨some false, c.session.username⟩ = answer) :
    ¬ Admitted cfg line c.session .auth ∧ (handleCommand cfg line c).conn.session = c.session ∨
    c.session.authed = true ∧
      (handleCommand cfg line c).conn.session = { c.session with state := .auth } ∨
    c.session.authed = false ∧
      (handleCommand cfg line c).conn.session = c.session.answered answer ∧
      (handleCommand cfg line c).conn.env.log =
        .reply (authReply answer.accepted) :: .authenticate (splitCommand line).2 :: c.env.log := by
  unfold handleCommand
  simp only [verb]
  split
  · rename_i first
    exact .inl ⟨fun admitted => admitted.started (by simp) first, rfl⟩
  split
  · rename_i plain
    refine .inl ⟨fun admitted => ?_, rfl⟩
    have secure : c.session.startTlsRequiredAndMissing cfg = false := admitted.secure
    rw [secure] at plain
    cases plain
  by_cases authed : c.session.authed = true
  · refine .inr (.inl ⟨authed, ?_⟩)
    simp [handleAuth_repeated authed, authed, Ended.conn, Conn.enter]
  · have unauthed : c.session.authed = false := by simpa using authed
    exact .inr (.inr ⟨unauthed, handleAuth_answers rfl unauthed answers⟩)

/-- Every command but `AUTH` keeps the identity or drops it. -/
theorem handleCommand_identity {cfg : Config} {line : Bytes} {c : Conn}
    (other : commandVerb line ≠ .auth) :
    (handleCommand cfg line c).conn.session.authed = false ∨
    commandVerb line ≠ .rset ∧
      (handleCommand cfg line c).conn.session.tlsActive = c.session.tlsActive ∧
      (handleCommand cfg line c).conn.session.authed = c.session.authed ∧
      (handleCommand cfg line c).conn.session.username = c.session.username := by
  have moves := handleCommand_moves cfg line c
  generalize handleCommand cfg line c = ended at moves ⊢
  cases moves with
  | outOfSequence early => exact .inr ⟨(outOfSequence_verb early).2.2, rfl, rfl, rfl⟩
  | insecure _ plain => exact .inr ⟨(insecure_verb plain).2.2, rfl, rfl, rfl⟩
  | greets verb session _ =>
      refine .inr ⟨?_, by simp [Ended.conn, session], by simp [Ended.conn, session],
        by simp [Ended.conn, session]⟩
      rcases verb with verb | verb <;> simp [verb]
  | hangsUp verb session _ =>
      refine .inr ⟨?_, by simp [Ended.conn, session], by simp [Ended.conn, session],
        by simp [Ended.conn, session]⟩
      rcases verb with admitted | verb
      · simp [admitted.verb]
      · simp [verb]
  | replies text verb =>
      refine .inr ⟨?_, rfl, rfl, rfl⟩
      rcases verb with verb | verb <;> simp [verb]
  | hasTls admitted _ | unauthenticated admitted _ | mails admitted _ | recipient admitted
  | noRecipients admitted _ =>
      exact .inr ⟨by simp [admitted.verb], rfl, rfl, rfl⟩
  | startsTls _ _ session _ =>
      left
      simp [Ended.conn, session, SmtpSession.secured]
  | hasAuth admitted _ => exact absurd admitted.verb other
  | authenticates _ admitted _ _ _ => exact absurd admitted.verb other
  | receives enters =>
      refine .inr ⟨by simp [enters.verb], ?_⟩
      have kept := handleData_session cfg c
      cases handled : handleData cfg c with
      | ok d | error d =>
          rw [handled] at kept
          have kept : d.session = c.session := kept
          simp [Except.map, Ended.conn, afterData, kept]
  | resets _ session _ =>
      left
      simp [Ended.conn, session, SmtpSession.reset]

/-! ## The identity along a run -/

variable {cfg : Config} {base64Decode : Bytes → Bytes} {asked : Asked} {c d : Conn}

theorem Serves.auth (serves : Serves cfg base64Decode c asked d)
    (verb : commandVerb asked.line = .auth) :
    ¬ Admitted cfg asked.line c.session .auth ∧ d.session = c.session ∨
    c.session.authed = true ∧ d.session = { c.session with state := .auth } ∨
    ∃ answer, authAnswer base64Decode asked (splitCommand asked.line).2 c.session.username = answer ∧
      c.session.authed = false ∧ d.session = c.session.answered answer ∧
      since c d = [.reply (authReply answer.accepted), .authenticate (splitCommand asked.line).2] := by
  subst serves
  unfold serve
  generalize answers : authAnswer base64Decode asked (splitCommand asked.line).2 c.session.username =
    answer
  rcases @handleCommand_auth cfg asked.line (c.expecting answer) answer verb rfl with
    turnedDown | ⟨before, session⟩ | ⟨before, session, log⟩
  · exact .inl turnedDown
  · exact .inr (.inl ⟨before, session⟩)
  · exact .inr (.inr ⟨answer, rfl, before, session, @since_eq c _ [_, _] log⟩)

/-- After a command the session is authenticated because the command logged in,
    or because it was before and nothing has cancelled that. -/
theorem Serves.identity (serves : Serves cfg base64Decode c asked d)
    (authed : d.session.authed = true) :
    LogsInAs base64Decode d.session.username ⟨asked, c, d⟩ ∨
      c.session.authed = true ∧ d.session.username = c.session.username ∧
        ¬ CancelsLogin ⟨asked, c, d⟩ := by
  by_cases verb : commandVerb asked.line = .auth
  · have calm : ¬ CancelsLogin ⟨asked, c, d⟩ := by simp [CancelsLogin, verb]
    rcases serves.auth verb with ⟨-, same⟩ | ⟨before, session⟩ | ⟨answer, answers, -, session, -⟩
    · rw [same] at authed ⊢
      exact .inr ⟨authed, rfl, calm⟩
    · rw [session]
      exact .inr ⟨before, rfl, calm⟩
    · rw [session] at authed ⊢
      have accepted : answer.accepted = some true := by simpa [SmtpSession.answered] using authed
      subst answers
      obtain ⟨s, authzid, user, pass, args, decoded, clean, cleanUser, valid, name⟩ :=
        authAnswer_accepted accepted
      refine .inl ⟨verb, s, authzid, pass, args, ?_⟩
      simp only [SmtpSession.answered, name]
      exact ⟨decoded, clean, cleanUser, valid⟩
  · subst serves
    rcases handleCommand_identity verb with dropped | ⟨notReset, tls, same, name⟩
    · exact absurd (dropped.symm.trans authed) (by decide)
    · refine .inr ⟨same.symm.trans authed, name, ?_⟩
      rintro (reset | ⟨-, off, active⟩)
      · exact notReset reset
      · have stillOff := tls.trans off
        exact absurd (stillOff.symm.trans active) (by decide)

theorem Serves.idle (serves : Serves cfg base64Decode c asked d)
    (verb : commandVerb asked.line = .auth)
    (idle : c.session.authed = true ∨ ¬ Granted ⟨asked, c, d⟩) :
    d.session.authed = c.session.authed ∧
      (c.session.authed = true → d.session.username = c.session.username) := by
  rcases serves.auth verb with ⟨-, same⟩ | ⟨-, session⟩ | ⟨answer, -, before, session, events⟩
  · rw [same]
    exact ⟨rfl, fun _ => rfl⟩
  · rw [session]
    exact ⟨rfl, fun _ => rfl⟩
  · have refused := idle.resolve_left (by simp [before])
    rw [Granted, events] at refused
    have denied : answer.accepted ≠ some true := by
      intro accepted
      exact refused (by rw [accepted]; exact List.mem_cons_self)
    rw [session, before]
    exact ⟨by simpa [SmtpSession.answered] using denied, fun authed => by cases authed⟩

/-- For every sequence of commands, handshake outcomes and users at the time:
    an authenticated session carries the name of a login since the last `RSET`
    and successful `STARTTLS`, and an `AUTH` that fails or is repeated changes
    neither `authed_` nor the name of an authenticated session. -/
theorem session_identity (cfg : Config) (base64Decode : Bytes → Bytes) (tlsActive : Bool) (env : Env)
    {past : List (Taken Asked Conn)} {c : Conn}
    (trace : Trace (Serves cfg base64Decode) (Conn.fresh tlsActive env) past c) :
    (c.session.authed = true → Since (LogsInAs base64Decode c.session.username) CancelsLogin past) ∧
    ∀ x ∈ past, commandVerb x.label.line = .auth →
      x.before.session.authed = true ∨ ¬ Granted x →
        x.after.session.authed = x.before.session.authed ∧
        (x.before.session.authed = true →
          x.after.session.username = x.before.session.username) := by
  refine ⟨?_, fun x member => Serves.idle (trace.steps x member)⟩
  induction trace with
  | nil => simp [Conn.fresh, SmtpSession.fresh]
  | snoc _ serves ih =>
      intro authed
      rcases Serves.identity serves authed with login | ⟨before, name, calm⟩
      · exact .now login
      · rw [name]
        exact (ih before).later calm

/-- Bob greets the server and logs in. -/
theorem session_identity_bob : ∃ past c,
    Trace (Serves { minTlsVersion := TLS1_2_VERSION } mixedDecode) (Conn.fresh true { input := [] })
      past c ∧
    c.session.authed = true ∧ Since (LogsInAs mixedDecode (ascii "bob")) CancelsLogin past := by
  let cfg : Config := { minTlsVersion := TLS1_2_VERSION }
  let greets : Asked := ⟨ascii "EHLO client", mixedSsl, mixedStored⟩
  let logsIn : Asked := ⟨ascii "AUTH PLAIN AGJvYgBzZWNyZXQ=", mixedSsl, mixedStored⟩
  let c₁ := serve cfg mixedDecode greets (Conn.fresh true { input := [] })
  let c₂ := serve cfg mixedDecode logsIn c₁
  have granted (username : Bytes) : authAnswer mixedDecode logsIn (ascii "PLAIN AGJvYgBzZWNyZXQ=")
      username = ⟨some true, ascii "bob"⟩ := by
    simp only [authAnswer, logsIn, bob_authenticated, Option.getD_some]
  have greeted : c₁.session.authed = false := rfl
  have verb : commandVerb logsIn.line = .auth := by decide
  have args : (splitCommand logsIn.line).2 = ascii "PLAIN AGJvYgBzZWNyZXQ=" := by decide
  have loggedIn : c₂.session = c₁.session.answered ⟨some true, ascii "bob"⟩ := by
    have admitted : Admitted cfg logsIn.line c₁.session .auth := ⟨verb, rfl, rfl⟩
    have serves : Serves cfg mixedDecode c₁ logsIn c₂ := rfl
    rcases serves.auth verb with ⟨denied, -⟩ | ⟨before, -⟩ | ⟨answer, answers, -, session, -⟩
    · exact absurd admitted denied
    · exact absurd (greeted.symm.trans before) (by decide)
    · rw [session, ← answers, args, granted]
  have trace : Trace (Serves cfg mixedDecode) (Conn.fresh true { input := [] }) _ c₂ :=
    .snoc (.snoc .nil (show Serves cfg mixedDecode _ greets c₁ from rfl))
      (show Serves cfg mixedDecode _ logsIn c₂ from rfl)
  have authed : c₂.session.authed = true := by rw [loggedIn]; rfl
  have login := (session_identity cfg mixedDecode true { input := [] } trace).1 authed
  rw [loggedIn] at login
  exact ⟨_, c₂, trace, authed, login⟩

end EmailServer.Smtp
