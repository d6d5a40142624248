import EmailServer.Smtp.Steps

/-! # What a command does to the session

Every command is turned down, or makes one of a few moves. The guards that turn
a command down look at its verb and at the session; all later facts about single
commands are read off this list.
-/

namespace EmailServer.Smtp

/-- The session is past `MAIL`. -/
def SmtpSession.transacting (s : SmtpSession) : Bool := s.state == .mailFrom || s.state == .rcptTo

/-- Commands that the state machine does not admit in a state. -/
def outOfSequence (s : SmtpSession) : Verb → Bool
  | .starttls | .auth | .mail => s.state == .connected
  | .rcpt => !s.transacting
  | .data => s.state != .rcptTo
  | _ => false

/-- Commands that a TLS policy turns down. -/
def insecure (cfg : Config) (s : SmtpSession) : Verb → Bool
  | .auth => s.startTlsRequiredAndMissing cfg
  | .mail | .rcpt | .data => s.tlsRequiredAndMissing cfg
  | _ => false

/-- Neither guard turns the command down. -/
structure Admitted (cfg : Config) (line : Bytes) (s : SmtpSession) (v : Verb) : Prop where
  verb : commandVerb line = v
  sequence : outOfSequence s v = false
  secure : insecure cfg s v = false

instance (cfg : Config) (line : Bytes) (s : SmtpSession) (v : Verb) :
    Decidable (Admitted cfg line s v) :=
  decidable_of_iff
    (commandVerb line = v ∧ outOfSequence s v = false ∧ EmailServer.Smtp.insecure cfg s v = false)
    ⟨fun ⟨verb, sequence, secure⟩ => ⟨verb, sequence, secure⟩,
      fun h => ⟨h.verb, h.sequence, h.secure⟩⟩

theorem outOfSequence_verb {s : SmtpSession} {v : Verb} (early : outOfSequence s v = true) :
    v ≠ .ehlo ∧ v ≠ .helo ∧ v ≠ .rset := by
  cases v with
  | ehlo | helo | rset => cases early
  | _ => simp

theorem insecure_verb {cfg : Config} {s : SmtpSession} {v : Verb} (plain : insecure cfg s v = true) :
    v ≠ .ehlo ∧ v ≠ .helo ∧ v ≠ .rset := by
  cases v with
  | ehlo | helo | rset => cases plain
  | _ => simp

namespace Admitted

variable {cfg : Config} {line : Bytes} {s : SmtpSession} {v : Verb}

theorem started (admitted : Admitted cfg line s v) (verb : v = .starttls ∨ v = .auth ∨ v = .mail) :
    s.state ≠ .connected := by
  have sequence := admitted.sequence
  rcases verb with rfl | rfl | rfl <;> simpa [outOfSequence] using sequence

theorem transacting (admitted : Admitted cfg line s .rcpt) : s.transacting = true := by
  simpa [outOfSequence] using admitted.sequence

theorem rcptTo (admitted : Admitted cfg line s .data) : s.state = .rcptTo := by
  simpa [outOfSequence] using admitted.sequence

end Admitted

/-- What a successful handshake makes of the session. -/
def SmtpSession.secured (s : SmtpSession) : SmtpSession :=
  { s with
    tlsActive := true
    authed := false
    username := []
    heloDomain := []
    mailFrom := []
    rcptTo := [] }

/-- The session after `authenticateSmtp` has answered. -/
def SmtpSession.answered (s : SmtpSession) (answer : AuthAnswer) : SmtpSession :=
  { s with
    username := answer.username
    authed := answer.accepted == some true
    state := if answer.accepted == some true then .auth else s.state }

def authReply : Option Bool → Bytes
  | some true => ascii "235 Authentication successful"
  | some false => ascii "535 Authentication failed"
  | none => ascii "451 Internal error - authentication failed"

def SmtpSession.reset (s : SmtpSession) : SmtpSession :=
  { s with
    authed := false
    username := []
    mailFrom := []
    rcptTo := []
    state := .heloEhlo }

/-- Events of the commands that only answer, and perhaps hang up. -/
def Event.mute : Event → Prop
  | .reply _ | .socketClosed => True
  | _ => False

/-- The moves of the command `line` in front of `c`. -/
inductive Moves (cfg : Config) (line : Bytes) (c : Conn) : Ended → Prop
  | outOfSequence : outOfSequence c.session (commandVerb line) = true → Moves cfg line c (badSequence c)
  | insecure : outOfSequence c.session (commandVerb line) = false →
      insecure cfg c.session (commandVerb line) = true → Moves cfg line c (needsStarttls c)
  | greets {d} : commandVerb line = .ehlo ∨ commandVerb line = .helo →
      d.session = { c.session with heloDomain := (splitCommand line).2, state := .heloEhlo } →
      Logs Event.mute c d → Moves cfg line c (.ok d)
  | hasTls : Admitted cfg line c.session .starttls → c.session.tlsActive = true →
      Moves cfg line c (.ok (c.sendLine (ascii "454 TLS already active")))
  | hangsUp {d} : Admitted cfg line c.session .starttls ∨ commandVerb line = .quit →
      d.session = { c.session with sockOpen := false } → Logs Event.mute c d →
      Moves cfg line c (.ok d)
  | startsTls {d} : Admitted cfg line c.session .starttls → c.session.tlsActive = false →
      d.session = c.session.secured → Logs Event.mute c d → Moves cfg line c (.ok d)
  | hasAuth : Admitted cfg line c.session .auth → c.session.authed = true →
      Moves cfg line c (.ok ((c.sendLine (ascii "503 Already authenticated")).enter .auth))
  | authenticates {d} (answer) : Admitted cfg line c.session .auth →
      c.session.authed = false → d.session = c.session.answered answer →
      d.env.log = .reply (authReply answer.accepted) :: .authenticate (splitCommand line).2 ::
        c.env.log →
      Moves cfg line c (.ok d)
  | unauthenticated : Admitted cfg line c.session .mail → c.session.authed = false →
      Moves cfg line c (.ok (c.sendLine (ascii "530 Authentication required")))
  | mails : Admitted cfg line c.session .mail → c.session.authed = true →
      Moves cfg line c (.ok ((handleMailFrom (splitCommand line).2 c).enter .mailFrom))
  | recipient : Admitted cfg line c.session .rcpt →
      Moves cfg line c (.ok ((handleRcptTo (splitCommand line).2 c).enter .rcptTo))
  | noRecipients : Admitted cfg line c.session .data → c.session.rcptTo = [] →
      Moves cfg line c (.ok (afterData (c.sendLine (ascii "503 No recipients specified"))))
  | receives : EntersData cfg line c → Moves cfg line c ((handleData cfg c).map afterData)
  | resets {d} : commandVerb line = .rset → d.session = c.session.reset → Logs Event.mute c d →
      Moves cfg line c (.ok d)
  | replies (text) : commandVerb line = .noop ∨ commandVerb line = .unknown →
      Moves cfg line c (.ok (c.sendLine text))

theorem sendMultilineResponse_session (c : Conn) (lines : List Bytes) :
    (c.sendMultilineResponse lines).session = c.session := by
  induction lines generalizing c with
  | nil => rfl
  | cons line rest ih =>
      cases rest with
      | nil => rfl
      | cons => exact ih _

theorem sendMultilineResponse_mute {a c : Conn} (logs : Logs Event.mute a c) (lines : List Bytes) :
    Logs Event.mute a (c.sendMultilineResponse lines) := by
  induction lines generalizing c with
  | nil => exact logs
  | cons line rest ih =>
      cases rest with
      | nil => exact logs.record (show Event.mute (.reply _) from trivial)
      | cons => exact ih (logs.record (show Event.mute (.reply _) from trivial))

theorem handleStarttls_moves {cfg : Config} {line : Bytes} {c : Conn}
    (admitted : Admitted cfg line c.session .starttls) :
    Moves cfg line c (.ok (handleStarttls cfg c)) := by
  unfold handleStarttls
  split
  · exact .hasTls admitted ‹_›
  rename_i inactive
  have inactive : c.session.tlsActive = false := by simpa using inactive
  have ready : ∀ {d : Conn}, d.env.log = (c.sendLine (ascii "220 Ready to start TLS")).env.log →
      Logs Event.mute c d := fun log => ⟨[_], log, by simp [Event.mute]⟩
  have refused : ∀ {d : Conn} line, Logs Event.mute c d → Logs Event.mute c (refuseTls d line) := by
    intro d line logs
    have answered : Logs Event.mute c (d.sendLine line) :=
      logs.record (show Event.mute (.reply _) from trivial)
    exact (answered.trans (.of_eq rfl)).record (show Event.mute .socketClosed from trivial)
  dsimp only
  split
  · exact .hangsUp (.inl admitted) rfl (refused _ (ready rfl))
  · exact .hangsUp (.inl admitted) rfl (refused _ (ready rfl))
  · exact .hangsUp (.inl admitted) rfl (refused _ (ready rfl))
  · split
    · exact .hangsUp (.inl admitted) rfl (refused _ (ready rfl))
    · exact .startsTls admitted inactive rfl (ready rfl)

theorem handleAuth_answers {args : Bytes} {c d : Conn} {answer : AuthAnswer}
    (handled : handleAuth args c = d) (unauthed : c.session.authed = false)
    (answers : c.env.auths.headD ⟨some false, c.session.username⟩ = answer) :
    (if d.session.authed then d.enter .auth else d).session = c.session.answered answer ∧
      (if d.session.authed then d.enter .auth else d).env.log =
        .reply (authReply answer.accepted) :: .authenticate args :: c.env.log := by
  rw [handleAuth, if_neg (by simp [unauthed])] at handled
  dsimp only at handled
  rw [answers] at handled
  split at handled
  all_goals
    rename_i accepted
    subst handled
  · exact ⟨by simp [SmtpSession.answered, accepted, Conn.enter], by rw [accepted]; rfl⟩
  · rw [if_neg (by simp [unauthed])]
    exact ⟨by simp [SmtpSession.answered, accepted, unauthed], by rw [accepted]; rfl⟩
  · rw [if_neg (by simp [unauthed])]
    exact ⟨by simp [SmtpSession.answered, accepted, unauthed], by rw [accepted]; rfl⟩

theorem handleAuth_repeated {args : Bytes} {c : Conn} (authed : c.session.authed = true) :
    handleAuth args c = c.sendLine (ascii "503 Already authenticated") := by
  rw [handleAuth, if_pos authed]

theorem handleAuth_moves {cfg : Config} {line : Bytes} {c : Conn}
    (admitted : Admitted cfg line c.session .auth) :
    Moves cfg line c (.ok (if (handleAuth (splitCommand line).2 c).session.authed then
      (handleAuth (splitCommand line).2 c).enter .auth else handleAuth (splitCommand line).2 c)) := by
  by_cases authed : c.session.authed = true
  · rw [handleAuth_repeated authed, if_pos (by simpa using authed)]
    exact .hasAuth admitted authed
  · have unauthed : c.session.authed = false := by simpa using authed
    obtain ⟨session, log⟩ := handleAuth_answers rfl unauthed rfl
    exact .authenticates _ admitted unauthed session log

theorem handleCommand_moves (cfg : Config) (line : Bytes) (c : Conn) :
    Moves cfg line c (handleCommand cfg line c) := by
  unfold handleCommand
  cases verb : commandVerb line with
  | ehlo =>
      apply Moves.greets (.inl verb)
      · simp [handleEhlo, Conn.enter, sendMultilineResponse_session]
      · exact sendMultilineResponse_mute (.of_eq rfl) _
  | helo => exact .greets (.inr verb) rfl ((Logs.of_eq rfl).record trivial)
  | starttls =>
      dsimp only
      split
      · exact .outOfSequence (by simp [outOfSequence, *])
      · exact handleStarttls_moves ⟨verb, by simp [outOfSequence, *], rfl⟩
  | auth =>
      dsimp only
      split
      · exact .outOfSequence (by simp [outOfSequence, *])
      split
      · exact .insecure (by simp [outOfSequence, *]) (by simp [insecure, *])
      · exact handleAuth_moves ⟨verb, by simp [outOfSequence, *], by simp [insecure, *]⟩
  | mail =>
      dsimp only
      split
      · exact .outOfSequence (by simp [outOfSequence, *])
      split
      · exact .insecure (by simp [outOfSequence, *]) (by simp [insecure, *])
      have admitted : Admitted cfg line c.session .mail :=
        ⟨verb, by simp [outOfSequence, *], by simp [insecure, *]⟩
      split
      · exact .unauthenticated admitted (by simpa using ‹(!c.session.authed) = true›)
      · exact .mails admitted (by simpa using ‹¬(!c.session.authed) = true›)
  | rcpt =>
      dsimp only
      split
      · exact .outOfSequence (by simp [outOfSequence, SmtpSession.transacting, *])
      have inside : c.session.transacting = true := by
        simp only [SmtpSession.transacting, Bool.or_eq_true, beq_iff_eq]
        tauto
      split
      · exact .insecure (by simp [verb, outOfSequence, inside]) (by simp [insecure, *])
      · exact .recipient ⟨verb, by simp [outOfSequence, inside], by simp [insecure, *]⟩
  | data =>
      dsimp only
      split
      · exact .outOfSequence (by simp [outOfSequence, *])
      rename_i state
      have state : c.session.state = .rcptTo := not_not.mp state
      split
      · exact .insecure (by simp [outOfSequence, *]) (by simp [insecure, *])
      rename_i secure
      have secure : c.session.tlsRequiredAndMissing cfg = false := by simpa using secure
      by_cases recipients : c.session.rcptTo = []
      · rw [handleData, if_pos recipients]
        exact .noRecipients ⟨verb, by simp [outOfSequence, state], by simp [insecure, secure]⟩ recipients
      · exact .receives ⟨verb, state, secure, recipients⟩
  | quit => exact .hangsUp (.inr verb) rfl (((Logs.refl c).record trivial).record trivial)
  | rset => exact .resets verb rfl ((Logs.of_eq rfl).record trivial)
  | noop => exact .replies _ (.inl verb)
  | unknown => exact .replies _ (.inr verb)

theorem handleCommand_outOfSequence {cfg : Config} {line : Bytes} {c : Conn}
    (early : outOfSequence c.session (commandVerb line) = true) :
    handleCommand cfg line c = badSequence c := by
  have admitted : ∀ v, ¬ Admitted cfg line c.session v := by
    intro v admitted
    rw [admitted.verb, admitted.sequence] at early
    cases early
  have moves := handleCommand_moves cfg line c
  generalize handleCommand cfg line c = ended at moves ⊢
  cases moves with
  | outOfSequence => rfl
  | insecure order _ =>
      rw [order] at early
      cases early
  | greets verb _ _ | replies _ verb =>
      rcases verb with verb | verb <;> simp [verb, outOfSequence] at early
  | hangsUp verb _ _ =>
      rcases verb with starttls | verb
      · exact absurd starttls (admitted _)
      · simp [verb, outOfSequence] at early
  | hasTls h _ | startsTls h _ _ _ | hasAuth h _ | authenticates _ h _ _ _ | unauthenticated h _
  | mails h _ | recipient h | noRecipients h _ => exact absurd h (admitted _)
  | receives enters => simp [enters.verb, outOfSequence, enters.state] at early
  | resets verb _ _ => simp [verb, outOfSequence] at early

/-- `authenticateSmtp` is called by an `AUTH` that has been admitted. -/
theorem handleCommand_authenticates {cfg : Config} {line args : Bytes} {c : Conn}
    (asked : .authenticate args ∈ since c (handleCommand cfg line c).conn) :
    Admitted cfg line c.session .auth := by
  have muted : ∀ {d : Conn}, Logs Event.mute c d → .authenticate args ∉ since c d := by
    intro d ⟨new, log, each⟩ asked
    rw [since_eq log] at asked
    exact each _ asked
  have moves := handleCommand_moves cfg line c
  generalize handleCommand cfg line c = ended at moves asked
  cases moves with
  | hasAuth admitted _ | authenticates _ admitted _ _ _ => exact admitted
  | greets _ _ logs | hangsUp _ _ logs | startsTls _ _ _ logs | resets _ _ logs =>
      exact absurd asked (muted logs)
  | outOfSequence | insecure | hasTls | unauthenticated | mails | recipient | noRecipients | replies =>
      exact absurd asked (muted ⟨[_], rfl, by simp [Event.mute]⟩)
  | receives enters =>
      obtain ⟨new, log, each⟩ := handleData_logs cfg enters.recipients
      rw [since_eq (by rw [afterData_env, log])] at asked
      exact absurd (each _ asked) id

end EmailServer.Smtp
