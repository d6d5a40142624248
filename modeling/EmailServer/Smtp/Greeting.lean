import EmailServer.Smtp.Moves
import EmailServer.Smtp.Transcript

/-! # The greeting

A session should serve nobody who has not said `EHLO` or `HELO`, and nobody who
has not said it again after `STARTTLS`. Whether there was a greeting is kept in
the state alone: `RSET` leaves the state of a session that has been greeted, and
a successful handshake leaves the state as it is.
-/

namespace EmailServer.Smtp

namespace Exchange

variable (x : Exchange)

/-- The command is one that must wait for a greeting. -/
def needsGreeting : Bool :=
  x.verb == .auth || x.verb == .mail || x.verb == .rcpt || x.verb == .data

/-- A greeting opens the session and a handshake closes it. -/
def greeting? : Option Bool :=
  if x.greets then some true else if x.startsTls then some false else none

/-- A greeting is pending after a handshake, and `RSET` looks like a greeting. -/
def concealment? : Option Bool :=
  if x.greets then some false else if x.startsTls || x.verb == .rset then some true else none

end Exchange

/-- There was a greeting since the session or its last handshake. -/
def greeted (past : List Exchange) : Bool := (latest Exchange.greeting? past).getD false

/-- Since the last greeting, if any, a handshake has succeeded or `RSET` was received. -/
def concealed (past : List Exchange) : Bool := (latest Exchange.concealment? past).getD false

/-- What a session owes its client: before a greeting the command is refused. -/
def GreetingFirst (past : List Exchange) (x : Exchange) : Prop :=
  greeted past = false → x.needsGreeting = true → x.refused = true

/-- No command slips through between a handshake, or a `RSET` that no greeting
    came before, and the next greeting: neither `AUTH` nor `MAIL`, and `RCPT` and
    `DATA` only in a state that does not admit them. -/
def Unconcealed (past : List Exchange) (x : Exchange) : Prop :=
  greeted past = false → concealed past = true →
    x.verb ≠ .auth ∧ x.verb ≠ .mail ∧
      (x.verb = .rcpt → x.before.session.transacting = false) ∧
      (x.verb = .data → x.before.session.state ≠ .rcptTo)

instance (past : List Exchange) (x : Exchange) : Decidable (GreetingFirst past x) :=
  inferInstanceAs (Decidable (_ → _ → _))

instance (past : List Exchange) (x : Exchange) : Decidable (Unconcealed past x) :=
  inferInstanceAs (Decidable (_ → _ → _))

/-! ## What the state says about the greeting -/

/-- A session is in its first state until a greeting, or what conceals that there was none. -/
def Counts (past : List Exchange) (s : SmtpSession) : Prop :=
  s.state = .connected ↔ greeted past = false ∧ concealed past = false

/-- Nobody is authenticated without a greeting. -/
def Anonymous (past : List Exchange) (s : SmtpSession) : Prop :=
  greeted past = false → s.authed = false

section Fold

variable {past : List Exchange} {x : Exchange}

theorem greeted_greets (greets : x.greets = true) : greeted (past ++ [x]) = true := by
  simp [greeted, Exchange.greeting?, greets]

theorem greeted_kept (plain : x.greets = false) (tls : x.startsTls = false) :
    greeted (past ++ [x]) = greeted past := by
  simp [greeted, Exchange.greeting?, plain, tls]

theorem concealed_conceals (plain : x.greets = false)
    (conceals : x.startsTls = true ∨ x.verb = .rset) : concealed (past ++ [x]) = true := by
  simp [concealed, Exchange.concealment?, plain, conceals]

theorem concealed_kept (plain : x.greets = false) (tls : x.startsTls = false)
    (rset : x.verb ≠ .rset) : concealed (past ++ [x]) = concealed past := by
  simp [concealed, Exchange.concealment?, plain, tls, rset]

end Fold

section Commands

variable {cfg : Config} {past : List Exchange} {x : Exchange}

/-- What a command does to the greeting, and to the state that keeps it. -/
inductive Counted (x : Exchange) : Prop
  | greets : x.greets = true → x.after.session.state ≠ .connected → Counted x
  | conceals : x.greets = false → x.startsTls = true ∨ x.verb = .rset →
      x.after.session.state ≠ .connected → x.after.session.authed = false → Counted x
  | unmoved : x.greets = false → x.startsTls = false → x.verb ≠ .rset →
      (x.after.session.state = .connected ↔ x.before.session.state = .connected) →
      (x.after.session.authed = x.before.session.authed ∨
        x.verb = .auth ∧ x.after.session.authed ≠ x.before.session.authed) → Counted x

theorem Counted.plain {line : Bytes} {c : Conn} {ended : Ended}
    (verb : commandVerb line ≠ .ehlo ∧ commandVerb line ≠ .helo ∧ commandVerb line ≠ .rset)
    (tls : ended.conn.session.tlsActive = c.session.tlsActive)
    (state : ended.conn.session.state = .connected ↔ c.session.state = .connected)
    (authed : ended.conn.session.authed = c.session.authed) : Counted ⟨line, c, ended⟩ := by
  refine Counted.unmoved ?_ ?_ verb.2.2 state (.inl authed)
  · simp [Exchange.greets, Exchange.verb, verb]
  · simp [Exchange.startsTls, Exchange.after, tls]

theorem Counted.answered {line : Bytes} {c : Conn} (text : Bytes)
    (verb : commandVerb line ≠ .ehlo ∧ commandVerb line ≠ .helo ∧ commandVerb line ≠ .rset) :
    Counted ⟨line, c, .ok (c.sendLine text)⟩ :=
  .plain verb rfl Iff.rfl rfl

theorem Counted.entered {line : Bytes} {c d : Conn} {v : Verb}
    (admitted : Admitted cfg line c.session v) (started : v = .auth ∨ v = .mail ∨ v = .rcpt)
    (state : d.session.state = .connected ↔ c.session.state = .connected)
    (tls : d.session.tlsActive = c.session.tlsActive)
    (authed : d.session.authed = c.session.authed) : Counted ⟨line, c, .ok d⟩ := by
  refine Counted.plain ?_ tls state authed
  rcases started with rfl | rfl | rfl <;> simp [admitted.verb]

theorem Counted.hangsUp {line : Bytes} {c d : Conn}
    (verb : Admitted cfg line c.session .starttls ∨ commandVerb line = .quit)
    (session : d.session = { c.session with sockOpen := false }) : Counted ⟨line, c, .ok d⟩ := by
  apply Counted.plain
  · rcases verb with admitted | verb
    · simp [admitted.verb]
    · simp [verb]
  all_goals simp [Ended.conn, session]

theorem Counted.startsTls {line : Bytes} {c d : Conn} (admitted : Admitted cfg line c.session .starttls)
    (inactive : c.session.tlsActive = false) (session : d.session = c.session.secured) :
    Counted ⟨line, c, .ok d⟩ := by
  have connected := admitted.started (by simp)
  apply Counted.conceals
  · simp [Exchange.greets, Exchange.verb, admitted.verb]
  · left
    simp [Exchange.startsTls, Exchange.after, Ended.conn, session, inactive, SmtpSession.secured]
  all_goals simp [Exchange.after, Ended.conn, session, SmtpSession.secured, connected]

theorem Counted.authenticates {line : Bytes} {c d : Conn} {answer : AuthAnswer}
    (admitted : Admitted cfg line c.session .auth) (unauthed : c.session.authed = false)
    (session : d.session = c.session.answered answer) : Counted ⟨line, c, .ok d⟩ := by
  have connected := admitted.started (by simp)
  apply Counted.unmoved
  · simp [Exchange.greets, Exchange.verb, admitted.verb]
  · simp [Exchange.startsTls, Exchange.after, Ended.conn, session, SmtpSession.answered]
  · simp [Exchange.verb, admitted.verb]
  · by_cases accepted : answer.accepted = some true <;>
      simp [Exchange.after, Ended.conn, session, SmtpSession.answered, connected, accepted]
  · by_cases accepted : answer.accepted = some true <;>
      simp [Exchange.after, Exchange.verb, Ended.conn, session, SmtpSession.answered, unauthed,
        accepted, admitted.verb]

theorem Counted.recipient {line : Bytes} {c : Conn} {args : Bytes}
    (admitted : Admitted cfg line c.session .rcpt) :
    Counted ⟨line, c, .ok ((handleRcptTo args c).enter .rcptTo)⟩ := by
  have connected : c.session.state ≠ .connected := by
    intro connected
    simpa [SmtpSession.transacting, connected] using admitted.transacting
  apply Counted.entered admitted (by simp) (by simp [Conn.enter, connected]) <;>
    simp [Conn.enter, handleRcptTo]

theorem Counted.receives {line : Bytes} {c : Conn} (enters : EntersData cfg line c) :
    Counted ⟨line, c, (handleData cfg c).map afterData⟩ := by
  have session := handleData_session cfg c
  cases handled : handleData cfg c with
  | ok d | error d =>
      rw [handled] at session
      have session : d.session = c.session := session
      apply Counted.plain
      · simp [enters.verb]
      all_goals simp [Ended.conn, Except.map, afterData, session, enters.state]

theorem handleCommand_counted (ran : x.ended = handleCommand cfg x.line x.before) : Counted x := by
  have moves := handleCommand_moves cfg x.line x.before
  rw [← ran] at moves
  obtain ⟨line, c, ended⟩ := x
  dsimp only at moves
  cases moves with
  | outOfSequence early => exact .answered _ (outOfSequence_verb early)
  | insecure _ plain => exact .answered _ (insecure_verb plain)
  | greets verb session _ =>
      apply Counted.greets
      · simpa [Exchange.greets, Exchange.verb] using verb
      · simp [Exchange.after, Ended.conn, session]
  | hasTls admitted _ | unauthenticated admitted _ =>
      apply Counted.answered
      simp [admitted.verb]
  | hangsUp verb session _ => exact .hangsUp verb session
  | startsTls admitted inactive session _ => exact .startsTls admitted inactive session
  | hasAuth admitted _ | mails admitted _ =>
      have connected := admitted.started (by simp)
      exact .entered admitted (by simp) (by simp [Conn.enter, connected]) rfl rfl
  | authenticates _ admitted unauthed session _ => exact .authenticates admitted unauthed session
  | recipient admitted => exact .recipient admitted
  | noRecipients admitted none =>
      apply Counted.plain
      · simp [admitted.verb]
      all_goals simp [Ended.conn, afterData, admitted.rcptTo]
  | receives enters => exact .receives enters
  | resets verb session _ =>
      apply Counted.conceals
      · simp [Exchange.greets, Exchange.verb, verb]
      · exact .inr verb
      all_goals simp [Exchange.after, Ended.conn, session, SmtpSession.reset]
  | replies text verb =>
      apply Counted.answered
      rcases verb with verb | verb <;> simp [verb]

/-- The state keeps count of the greeting. -/
theorem handleCommand_counts (ran : x.ended = handleCommand cfg x.line x.before)
    (counts : Counts past x.before.session) : Counts (past ++ [x]) x.after.session := by
  unfold Counts at *
  cases handleCommand_counted ran with
  | greets greets state => simp [greeted_greets greets, state]
  | conceals plain conceals state _ => simp [concealed_conceals plain conceals, state]
  | unmoved plain tls rset state _ =>
      rw [greeted_kept plain tls, concealed_kept plain tls rset, state]
      exact counts

theorem refused_session (refused : x.refused = true) : x.after.session = x.before.session := by
  obtain ⟨line, c, ended⟩ := x
  cases ended with
  | ok d =>
      simp only [Exchange.refused, Bool.and_eq_true, beq_iff_eq] at refused
      exact refused.1
  | error d => cases refused

/-- As long as greetings come first, nobody is authenticated without one. -/
theorem handleCommand_anonymous (ran : x.ended = handleCommand cfg x.line x.before)
    (anonymous : Anonymous past x.before.session) (first : GreetingFirst past x) :
    Anonymous (past ++ [x]) x.after.session := by
  intro ungreeted
  cases handleCommand_counted ran with
  | greets greets _ =>
      rw [greeted_greets greets] at ungreeted
      cases ungreeted
  | conceals _ _ _ authed => exact authed
  | unmoved plain tls _ _ authed =>
      rw [greeted_kept plain tls] at ungreeted
      rcases authed with kept | ⟨verb, changed⟩
      · rw [kept]
        exact anonymous ungreeted
      · have refused := first ungreeted (by simp [Exchange.needsGreeting, verb])
        rw [refused_session refused] at changed
        exact absurd rfl changed

/-! ## Refusals -/

theorem refused_answered {line text : Bytes} {c : Conn} :
    (Exchange.mk line c (.ok (c.sendLine text))).refused = (ascii "503").isPrefixOf text := by
  have events : (Exchange.mk line c (.ok (c.sendLine text))).events = [.reply text] :=
    Exchange.events_eq _ _ rfl
  simp [Exchange.refused, events, Event.replies]

theorem refused_events (refused : x.refused = true) :
    x.events.any (Event.replies (ascii "503")) = true := by
  obtain ⟨line, c, ended⟩ := x
  cases ended with
  | ok d =>
      simp only [Exchange.refused, Bool.and_eq_true] at refused
      exact refused.2
  | error d => cases refused

theorem refused_of_outOfSequence (ran : x.ended = handleCommand cfg x.line x.before)
    (early : outOfSequence x.before.session x.verb = true) : x.refused = true := by
  obtain ⟨line, c, ended⟩ := x
  obtain rfl : ended = badSequence c := ran.trans (handleCommand_outOfSequence early)
  exact refused_answered.trans (by decide)

theorem authReply_code (answer : Option Bool) :
    (ascii "503").isPrefixOf (authReply answer) = false := by
  rcases answer with _ | _ | _ <;> decide

/-- A refused command was out of sequence, except for `AUTH` after an `AUTH`. -/
theorem outOfSequence_of_refused (ran : x.ended = handleCommand cfg x.line x.before)
    (needs : x.needsGreeting = true) (refused : x.refused = true) :
    outOfSequence x.before.session x.verb = true ∨
      x.verb = .auth ∧ x.before.session.authed = true := by
  have session := refused_session refused
  have moves := handleCommand_moves cfg x.line x.before
  rw [← ran] at moves
  obtain ⟨line, c, ended⟩ := x
  simp only [Exchange.verb, Exchange.after, Exchange.needsGreeting] at moves session needs ⊢
  cases moves with
  | outOfSequence early => exact .inl early
  | insecure =>
      rw [needsStarttls, refused_answered] at refused
      exact absurd refused (by decide)
  | hasAuth admitted authed => exact .inr ⟨admitted.verb, authed⟩
  | authenticates answer _ _ _ log =>
      have denied := refused_events refused
      rw [Exchange.events_eq ⟨line, c, .ok _⟩ [.reply (authReply answer.accepted),
        .authenticate _] log] at denied
      simp [Event.replies, authReply_code] at denied
  | unauthenticated =>
      rw [refused_answered] at refused
      exact absurd refused (by decide)
  | mails | recipient =>
      have denied := refused_events refused
      rw [Exchange.events_eq _ [.reply (ascii "250 OK")] rfl] at denied
      exact absurd denied (by decide)
  | noRecipients admitted _ =>
      have state := admitted.rcptTo
      rw [← session] at state
      cases state
  | receives enters =>
      have state := enters.state
      cases handled : handleData cfg c with
      | ok d =>
          rw [handled] at session
          rw [← session] at state
          cases state
      | error d =>
          rw [handled] at refused
          cases refused
  | greets verb _ _ | replies _ verb => rcases verb with verb | verb <;> simp [verb] at needs
  | hangsUp verb _ _ =>
      rcases verb with admitted | verb
      · simp [admitted.verb] at needs
      · simp [verb] at needs
  | hasTls admitted _ | startsTls admitted _ _ _ => simp [admitted.verb] at needs
  | resets verb _ _ => simp [verb] at needs

end Commands

/-! ## Runs -/

/-- For every run: every `AUTH`, `MAIL`, `RCPT` and `DATA` before a greeting is
    refused if and only if none slips through after a handshake or a `RSET` that
    no greeting has followed. -/
theorem greeting_first_iff (cfg : Config) (allowed tlsActive : Bool) (env : Env) :
    Along GreetingFirst [] (transcript cfg allowed (Conn.fresh tlsActive env)) ↔
      Along Unconcealed [] (transcript cfg allowed (Conn.fresh tlsActive env)) := by
  have counts : Counts [] (Conn.fresh tlsActive env).session := by
    simp [Counts, Conn.fresh, SmtpSession.fresh, greeted, concealed]
  have counted : Along (fun past x => x.ended = handleCommand cfg x.line x.before ∧
      Counts past x.before.session) [] (transcript cfg allowed (Conn.fresh tlsActive env)) := by
    apply transcript_invariant _ _ counts (Along.trivial _ _)
    · intro past s time counts
      exact counts
    · intro past x ran counts _
      exact handleCommand_counts ran counts
  constructor
  · intro first
    have anonymous : Along (fun past x => x.ended = handleCommand cfg x.line x.before ∧
        Anonymous past x.before.session) [] (transcript cfg allowed (Conn.fresh tlsActive env)) := by
      apply transcript_invariant _ _ (fun _ => rfl) first
      · intro past s time anonymous
        exact anonymous
      · intro past x ran anonymous first
        exact handleCommand_anonymous ran anonymous first
    apply ((counted.and anonymous).and first).mono
    intro past x known ungreeted isConcealed
    obtain ⟨⟨⟨ran, counts⟩, -, anonymous⟩, first⟩ := known
    have connected : x.before.session.state ≠ .connected := by
      intro connected
      rw [(counts.mp connected).2] at isConcealed
      cases isConcealed
    have early : x.needsGreeting = true → outOfSequence x.before.session x.verb = true := by
      intro needs
      rcases outOfSequence_of_refused ran needs (first ungreeted needs) with early | ⟨-, authed⟩
      · exact early
      · rw [anonymous ungreeted] at authed
        cases authed
    unfold Exchange.needsGreeting at early
    refine ⟨?_, ?_, ?_, ?_⟩
    all_goals intro verb
    · simp [verb, outOfSequence, connected] at early
    · simp [verb, outOfSequence, connected] at early
    · simpa [verb, outOfSequence] using early
    · simpa [verb, outOfSequence] using early
  · intro unconcealed
    apply (counted.and unconcealed).mono
    intro past x known ungreeted needs
    obtain ⟨⟨ran, counts⟩, unconcealed⟩ := known
    apply refused_of_outOfSequence ran
    cases isConcealed : concealed past with
    | false =>
        have connected := counts.mpr ⟨ungreeted, isConcealed⟩
        cases verb : x.verb <;>
          simp [outOfSequence, SmtpSession.transacting, connected, Exchange.needsGreeting, verb] at needs ⊢
    | true =>
        obtain ⟨auth, mail, rcpt, data⟩ := unconcealed ungreeted isConcealed
        cases verb : x.verb with
        | auth => exact absurd verb auth
        | mail => exact absurd verb mail
        | rcpt => simp [outOfSequence, rcpt verb]
        | data => simp [outOfSequence, data verb]
        | _ => simp [Exchange.needsGreeting, verb] at needs

/-- After `RSET`, and after a handshake, a client is authenticated that has sent
    no greeting since. -/
theorem authenticated_without_greeting :
    ¬ Along GreetingFirst [] (transcript { minTlsVersion := TLS1_2_VERSION } true (Conn.fresh false
        { input := arriving (ascii "RSET\r\nAUTH PLAIN x\r\n")
          auths := [⟨some true, ascii "alice"⟩] })) ∧
      ¬ Along GreetingFirst [] (transcript { minTlsVersion := TLS1_2_VERSION } true (Conn.fresh false
        { input := arriving (ascii "EHLO c\r\nSTARTTLS\r\nAUTH PLAIN x\r\n")
          handshakes := [.accepted TLS1_2_VERSION (some 256)]
          auths := [⟨some true, ascii "alice"⟩] })) := by
  decide +kernel

end EmailServer.Smtp
