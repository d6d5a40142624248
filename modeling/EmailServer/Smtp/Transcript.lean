import EmailServer.Library.History
import EmailServer.Smtp.Runs

/-! # Transcripts

The commands of a run, each with the connection it met and the one it left. What
a client may expect of a command often depends on the commands before it. Such a
law is stated over the transcript, which tells commands apart by what was sent
and what was answered, and not by how the session keeps track of them.
-/

namespace EmailServer.Smtp

open Storage (StoredMessage)

/-- A reply that begins with `code`. -/
def Event.replies (code : Bytes) : Event → Bool
  | .reply line => code.isPrefixOf line
  | _ => false

/-- One call of `handleCommand`. -/
structure Exchange where
  line : Bytes
  before : Conn
  ended : Ended

namespace Exchange

variable (x : Exchange)

def verb : Verb := commandVerb x.line

def args : Bytes := (splitCommand x.line).2

def after : Conn := x.ended.conn

def events : List Event := since x.before x.after

theorem events_eq (new : List Event) (log : x.after.env.log = new ++ x.before.env.log) :
    x.events = new := since_eq log

/-- The command is answered `250`. -/
def accepted : Bool := x.events.any (Event.replies (ascii "250"))

/-- The command ends normally with the answer `503`, and the session is as before. -/
def refused : Bool :=
  match x.ended with
  | .error _ => false
  | .ok c => c.session == x.before.session && x.events.any (Event.replies (ascii "503"))

def greets : Bool := x.verb == .ehlo || x.verb == .helo

/-- A handshake succeeds. -/
def startsTls : Bool := !x.before.session.tlsActive && x.after.session.tlsActive

end Exchange

/-- The calls of `handleCommand` that the loop makes. -/
def exchanges (cfg : Config) : Nat → Conn → List Exchange
  | 0, _ => []
  | fuel + 1, c =>
    match nextCommand cfg c with
    | .ended _ => []
    | .skipped c => exchanges cfg fuel c
    | .command line c =>
        let ended := handleCommand cfg line c
        ⟨line, c, ended⟩ ::
          if (isolate ended).session.sockOpen then exchanges cfg fuel (isolate ended) else []

/-- The commands of a run. -/
def transcript (cfg : Config) (allowed : Bool) (c : Conn) : List Exchange :=
  let c := greet cfg c
  if !allowed then [] else exchanges cfg (c.env.input.length + 1) c

/-! ## Following the transcript -/

@[simp] theorem isolate_session (ended : Ended) :
    (isolate ended).session = ended.conn.session := by
  cases ended <;> rfl

section Invariant

variable {cfg : Config} {inv : List Exchange → SmtpSession → Prop}
  {P : List Exchange → Exchange → Prop}

theorem exchanges_invariant
    (idle : ∀ past s time, inv past s → inv past { s with lastActivity := time })
    (command : ∀ past x, x.ended = handleCommand cfg x.line x.before → inv past x.before.session →
      P past x → inv (past ++ [x]) x.after.session)
    {past : List Exchange} {fuel : Nat} {c : Conn} (start : inv past c.session)
    (along : Along P past (exchanges cfg fuel c)) :
    Along (fun past x => x.ended = handleCommand cfg x.line x.before ∧ inv past x.before.session)
      past (exchanges cfg fuel c) := by
  induction fuel generalizing past c with
  | zero => trivial
  | succ fuel ih =>
      unfold exchanges at along ⊢
      rcases nextCommand_cases cfg c with ⟨c', head, -⟩ | ⟨c', head, waited, -⟩ |
        ⟨line, c', head, session, -⟩
      · rw [head]
        trivial
      · rw [head] at along ⊢
        apply ih _ along
        rw [waited.session]
        exact start
      · rw [head] at along ⊢
        have met : inv past c'.session := by
          rw [session]
          exact idle _ _ _ start
        refine ⟨⟨rfl, met⟩, ?_⟩
        have left := command past ⟨line, c', handleCommand cfg line c'⟩ rfl met along.1
        have rest := along.2
        split at rest
        · rw [if_pos ‹_›]
          apply ih _ rest
          rw [isolate_session]
          exact left
        · rw [if_neg ‹_›]
          trivial

/-- An invariant of the session, given the commands so far, holds of every
    session that a command meets. -/
theorem transcript_invariant
    (idle : ∀ past s time, inv past s → inv past { s with lastActivity := time })
    (command : ∀ past x, x.ended = handleCommand cfg x.line x.before → inv past x.before.session →
      P past x → inv (past ++ [x]) x.after.session)
    {allowed : Bool} {c : Conn} (start : inv [] c.session)
    (along : Along P [] (transcript cfg allowed c)) :
    Along (fun past x => x.ended = handleCommand cfg x.line x.before ∧ inv past x.before.session)
      [] (transcript cfg allowed c) := by
  unfold transcript at along ⊢
  dsimp only at along ⊢
  split
  · trivial
  · rw [if_neg ‹_›] at along
    exact exchanges_invariant idle command start along

end Invariant

/-! ## The transcript is complete -/

theorem handleCommand_logs (cfg : Config) (line : Bytes) (c : Conn) :
    Logs (fun _ => True) c (handleCommand cfg line c).conn := by
  rcases handleCommand_cases cfg line c with ⟨enters, same⟩ | ⟨-, c', same, aside⟩
  · rw [same]
    obtain ⟨new, log, -⟩ := handleData_logs cfg enters.recipients
    exact ⟨new, by rw [afterData_env, log], fun _ _ => trivial⟩
  · rw [same]
    exact aside.log.mono fun _ _ => trivial

theorem Exchange.stores {cfg : Config} {x : Exchange} {session : SmtpSession} {msg : StoredMessage}
    {answer : Option Bytes} (ran : x.ended = handleCommand cfg x.line x.before)
    (stored : .store session msg answer ∈ x.events) :
    EntersData cfg x.line x.before ∧ session = x.before.session ∧
      ∃ message, msg = messageOf x.before.session message := by
  rcases handleCommand_cases cfg x.line x.before with ⟨enters, same⟩ | ⟨-, c', same, aside⟩
  · obtain ⟨new, log, each⟩ := handleData_logs cfg enters.recipients
    rw [x.events_eq new (by rw [Exchange.after, ran, same, afterData_env, log])] at stored
    exact ⟨enters, each _ stored⟩
  · obtain ⟨new, log, each⟩ := aside.log
    rw [x.events_eq new (by rw [Exchange.after, ran, same]; exact log)] at stored
    exact absurd (each _ stored) id

/-- The messages of a connection's log. -/
def Stored (c : Conn) (session : SmtpSession) (msg : StoredMessage) (answer : Option Bytes) : Prop :=
  .store session msg answer ∈ c.env.log

variable {session : SmtpSession} {msg : StoredMessage} {answer : Option Bytes}

theorem Stored.before {P : Event → Prop} {c c' : Conn} (logs : Logs P c c')
    (never : ¬ P (.store session msg answer)) (stored : Stored c' session msg answer) :
    Stored c session msg answer := by
  obtain ⟨new, log, each⟩ := logs
  unfold Stored at stored
  rw [log] at stored
  exact (List.mem_append.mp stored).resolve_left fun member => never (each _ member)

theorem Stored.byCommand {cfg : Config} {line : Bytes} {c : Conn}
    (stored : Stored (isolate (handleCommand cfg line c)) session msg answer) :
    Stored c session msg answer ∨
      .store session msg answer ∈ (Exchange.mk line c (handleCommand cfg line c)).events := by
  have ended : Stored (handleCommand cfg line c).conn session msg answer := by
    cases handled : handleCommand cfg line c with
    | ok d | error d =>
        rw [handled] at stored
        simpa [Stored, isolate, Ended.conn] using stored
  obtain ⟨new, log, -⟩ := handleCommand_logs cfg line c
  unfold Stored at ended
  rw [log] at ended
  rcases List.mem_append.mp ended with new | old
  · right
    rw [Exchange.events_eq ⟨line, c, handleCommand cfg line c⟩ _ log]
    exact new
  · exact .inl old

theorem runLoop_stores {cfg : Config} {fuel : Nat} {c : Conn}
    (stored : Stored (runLoop cfg fuel c) session msg answer) :
    Stored c session msg answer ∨
      ∃ x ∈ exchanges cfg fuel c, .store session msg answer ∈ x.events := by
  induction fuel generalizing c with
  | zero => exact .inl stored
  | succ fuel ih =>
      unfold runLoop at stored
      unfold exchanges
      rcases nextCommand_cases cfg c with ⟨c', head, waited⟩ | ⟨c', head, waited, -⟩ |
        ⟨line, c', head, -, log, -⟩
      · rw [head] at stored
        exact .inl (Stored.before waited.log id stored)
      · rw [head] at stored ⊢
        exact (ih stored).imp_left (Stored.before waited.log id)
      · rw [head] at stored ⊢
        have called : Stored (isolate (handleCommand cfg line c')) session msg answer →
            Stored c session msg answer ∨ .store session msg answer ∈
              (Exchange.mk line c' (handleCommand cfg line c')).events := by
          intro left
          apply left.byCommand.imp_left
          intro before
          unfold Stored at before ⊢
          rw [log] at before
          simpa using before
        dsimp only at stored ⊢
        split at stored
        · rw [if_pos ‹_›]
          rcases ih stored with left | ⟨x, member, later⟩
          · exact (called left).imp_right fun here => ⟨_, .head _, here⟩
          · exact .inr ⟨x, .tail _ member, later⟩
        · exact (called stored).imp_right fun here => ⟨_, .head _, here⟩

/-- Every message that a run stores is stored by a command of its transcript. -/
theorem run_stores {cfg : Config} {allowed tlsActive : Bool} {env : Env}
    (stored : Stored (run cfg allowed (Conn.fresh tlsActive env)) session msg answer) :
    ∃ x ∈ transcript cfg allowed (Conn.fresh tlsActive env),
      .store session msg answer ∈ x.events := by
  have none : ¬ Stored (greet cfg (Conn.fresh tlsActive env)) session msg answer := by
    simp [Stored, greet, Conn.fresh]
  unfold run at stored
  unfold transcript
  dsimp only at stored ⊢
  split at stored
  · exact absurd (by simpa [Stored] using stored) none
  · rw [if_neg ‹_›]
    have ran : Stored (runLoop cfg ((greet cfg (Conn.fresh tlsActive env)).env.input.length + 1)
        (greet cfg (Conn.fresh tlsActive env))) session msg answer := by
      split at stored
      · simpa [Stored] using stored
      · exact stored
    exact (runLoop_stores ran).resolve_left none

end EmailServer.Smtp
