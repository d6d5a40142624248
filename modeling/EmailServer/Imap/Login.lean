import EmailServer.Imap.ImapSession

/-! # Logins over TLS

`LOGIN` is turned down without TLS, and a new handshake drops the login that was
made before it.
-/

namespace EmailServer.Imap

open EmailServer.Core

/-- The log, latest first, has a successful validation of the name and no
    successful `STARTTLS` after it. -/
def ValidatedSince (username : Bytes) (log : List Event) : Prop :=
  ∃ newer session pass older,
    log = newer ++ .validate session username pass (some true) :: older ∧
      ∀ connection, .handshaken connection ∉ newer

/-- The invariant of a session. -/
structure LoginsSecure (c : Conn) : Prop where
  asked : ∀ session user pass answer, .validate session user pass answer ∈ c.env.log →
    session.tlsActive = true ∧ InputValidator.isValidUsername user = true
  active : c.session.authed = true → c.session.tlsActive = true
  validated : c.session.authed = true → ValidatedSince c.session.username c.env.log

theorem ValidatedSince.record {username : Bytes} {log : List Event} {event : Event}
    (validated : ValidatedSince username log) (other : ∀ connection, event ≠ .handshaken connection) :
    ValidatedSince username (event :: log) := by
  obtain ⟨newer, session, pass, older, rfl, none_⟩ := validated
  refine ⟨event :: newer, session, pass, older, rfl, ?_⟩
  intro connection member
  rcases List.mem_cons.mp member with same | before
  · exact other connection same.symm
  · exact none_ connection before

/-- Other events do not concern logins. -/
def Event.mute : Event → Prop
  | .reply _ | .socketClosed => True
  | _ => False

namespace LoginsSecure

variable {c d : Conn}

theorem of_eq (secure : LoginsSecure c) (log : d.env.log = c.env.log)
    (active : d.session.tlsActive = c.session.tlsActive)
    (authed : d.session.authed = c.session.authed)
    (username : d.session.username = c.session.username) : LoginsSecure d := by
  refine ⟨?_, ?_, ?_⟩
  · rw [log]
    exact secure.asked
  · rw [authed, active]
    exact secure.active
  · rw [authed, username, log]
    exact secure.validated

theorem record (secure : LoginsSecure c) {event : Event} (mute : event.mute) :
    LoginsSecure (c.record event) := by
  refine ⟨?_, secure.active, fun authed => (secure.validated authed).record ?_⟩
  · intro session user pass answer member
    rcases List.mem_cons.mp member with same | before
    · subst same
      exact mute.elim
    · exact secure.asked session user pass answer before
  · rintro connection rfl
    exact mute

theorem sendLine (secure : LoginsSecure c) (line : Bytes) : LoginsSecure (c.sendLine line) :=
  secure.record (show (Event.reply line).mute from trivial)

theorem dropped (unauthed : c.session.authed = false)
    (asked : ∀ session user pass answer, .validate session user pass answer ∈ c.env.log →
      session.tlsActive = true ∧ InputValidator.isValidUsername user = true) : LoginsSecure c := by
  refine ⟨asked, fun authed => ?_, fun authed => ?_⟩
  all_goals
    rw [unauthed] at authed
    cases authed

end LoginsSecure

section Commands

variable {c : Conn} {tag args line : Bytes}

theorem handleStarttls_secure (secure : LoginsSecure c) :
    LoginsSecure (handleStarttls tag c).conn := by
  have begun := secure.sendLine (tag ++ ascii " OK Begin TLS negotiation")
  unfold handleStarttls
  dsimp only
  split
  · exact begun.of_eq rfl rfl rfl rfl
  · refine LoginsSecure.sendLine ?_ _
    exact begun.of_eq rfl rfl rfl rfl
  · refine LoginsSecure.sendLine ?_ _
    exact begun.of_eq rfl rfl rfl rfl
  · refine .dropped rfl ?_
    intro session user pass answer member
    simp [Ended.conn, Conn.record, Conn.sendLine] at member
    exact secure.asked session user pass answer member

theorem handleLogin_secure (secure : LoginsSecure c) (active : c.session.tlsActive = true) :
    LoginsSecure (handleLogin tag args c).conn := by
  unfold handleLogin
  split
  · exact secure.sendLine _
  rename_i unset
  have unauthed : c.session.authed = false := by simpa using unset
  dsimp only
  split
  · exact secure.sendLine _
  split
  · exact secure.sendLine _
  rename_i checked
  have valid : InputValidator.isValidUsername (stripQuotes (word args).1) = true := by
    simpa using checked
  have asked : ∀ {d : Conn} {pass : Bytes} {answer : Option Bool},
      d.env.log = .validate c.session (stripQuotes (word args).1) pass answer :: c.env.log →
      ∀ session user pass answer, .validate session user pass answer ∈ d.env.log →
        session.tlsActive = true ∧ InputValidator.isValidUsername user = true := by
    intro d pass answer log session user pass' answer' member
    rw [log] at member
    rcases List.mem_cons.mp member with same | before
    · cases same
      exact ⟨active, valid⟩
    · exact secure.asked session user pass' answer' before
  split
  · exact .dropped unauthed (asked rfl)
  · refine LoginsSecure.sendLine ?_ _
    exact .dropped unauthed (asked rfl)
  · rename_i consented
    refine LoginsSecure.sendLine ?_ _
    refine ⟨asked rfl, fun _ => active, fun _ => ?_⟩
    exact ⟨[], c.session, _, c.env.log, by rw [← consented]; rfl, by simp⟩

theorem handleCommand_secure (secure : LoginsSecure c) :
    LoginsSecure (handleCommand line c).conn := by
  unfold handleCommand
  dsimp only
  split
  · exact (secure.sendLine _).sendLine _
  split
  · exact handleStarttls_secure secure
  split
  · split
    · exact handleLogin_secure secure ‹_›
    · exact secure.sendLine _
  split
  · refine LoginsSecure.record ?_ (show Event.socketClosed.mute from trivial)
    exact ((secure.sendLine _).sendLine _).of_eq rfl rfl rfl rfl
  · exact secure.sendLine _

theorem commands_secure {lines : List Bytes} (secure : LoginsSecure c) :
    LoginsSecure (commands lines c) := by
  induction lines generalizing c with
  | nil => exact secure
  | cons line rest ih => exact ih (handleCommand_secure secure)

theorem fresh_secure (ssl : Option TlsConnection) (env : Env) : LoginsSecure (Conn.fresh ssl env) :=
  .dropped rfl (by simp [Conn.fresh])

end Commands

/-- For every sequence of commands on a session started with or without TLS, and
    whatever the handshakes and validations come to: `validate` is called with
    TLS on and for valid names only, and a session that is authenticated has TLS
    and has had its name validated since the last successful `STARTTLS`. -/
theorem logins_over_tls (ssl : Option TlsConnection) (env : Env) (lines : List Bytes) :
    let c := commands lines (Conn.fresh ssl env)
    (∀ session user pass answer, .validate session user pass answer ∈ c.env.log →
      session.tlsActive = true ∧ InputValidator.isValidUsername user = true) ∧
    (c.session.authed = true → c.session.tlsActive = true ∧
      ValidatedSince c.session.username c.env.log) := by
  intro c
  have secure : LoginsSecure c := commands_secure (fresh_secure ssl env)
  exact ⟨secure.asked, fun authed => ⟨secure.active authed, secure.validated authed⟩⟩

/-- A login, a second handshake, and the session is nobody's again. -/
example : (commands [ascii "a LOGIN \"bob\" secret", ascii "b STARTTLS", ascii "c LOGIN bob secret",
    ascii "d starttls"] (Conn.fresh none
      { handshakes := [.accepted 0x0304 (some 256), .accepted 0x0304 (some 256)]
        validates := [some true] })).session =
    ImapSession.fresh (some ⟨0x0304, some 256⟩) := by decide

end EmailServer.Imap
