import EmailServer.Smtp.Body
import EmailServer.Smtp.Runs

/-! # Bodies and commands on one stream

Commands and bodies share the stream and `readLine`. Where a body ends is a
matter of the bytes alone; whether the session reads on exactly there is a
matter of `handleData`. It does when it reads the body to its end, and when it
gives up earlier the rest of the body is taken for commands.
-/

namespace EmailServer.Smtp

/-- What follows a body that begins here: everything behind the first line that
    consists of a dot. `line` is what was seen of the current line. -/
def afterBody (line : Bytes) : List Recv → List Recv
  | [] => []
  | .byte c :: rest =>
      if c = Bytes.cr then afterBody line rest
      else if c = Bytes.lf then if line = terminator then rest else afterBody [] rest
      else afterBody (line ++ [c]) rest
  | .failed :: rest | .closed :: rest | .threw :: rest | .escaped :: rest => afterBody line rest

theorem afterBody_line {errors : Nat} {out line : Bytes} {input rest : List Recv}
    (read : readFrom errors out input = (.line line, rest)) :
    afterBody out input = if line = terminator then rest else afterBody [] rest := by
  induction input generalizing errors out with
  | nil => cases read
  | cons r tail ih =>
      cases r with
      | closed | threw | escaped => cases read
      | failed =>
          simp only [readFrom] at read
          split at read
          · cases read
          · exact ih read
      | byte c =>
          simp only [readFrom] at read
          simp only [afterBody]
          split at read
          · rw [if_pos ‹_›]
            exact ih read
          rw [if_neg ‹_›]
          split at read
          · rw [if_pos ‹_›]
            cases read
            rfl
          rw [if_neg ‹_›]
          split at read
          · cases read
          · exact ih read

theorem readLine_afterBody {c c' : Conn} {line : Bytes} (read : readLine c = (.line line, c')) :
    afterBody [] c.env.input =
      if line = terminator then c'.env.input else afterBody [] c'.env.input :=
  afterBody_line (readLine_line read).1

/-- The lines of a body, as far as `readLine` delivers them. -/
def bodyLines (input : List Recv) : List Bytes :=
  (readLines 0 [] input).lines.takeWhile fun line => !decide (line = terminator)

/-- The body gets through: `readLine` delivers its terminator, or nothing is left
    to read after it fails, and the loop survives the lines before. -/
structure BodyWhole (cfg : Config) (c : Conn) : Prop where
  ends : terminator ∈ (readLines 0 [] c.env.input).lines ∨
    (readLines 0 [] c.env.input).unread = []
  fits : Fits cfg 0 (bodyLines c.env.input) c.env.appends

instance (cfg : Config) (c : Conn) : Decidable (BodyWhole cfg c) :=
  decidable_of_iff
    ((terminator ∈ (readLines 0 [] c.env.input).lines ∨
        (readLines 0 [] c.env.input).unread = []) ∧
      Fits cfg 0 (bodyLines c.env.input) c.env.appends)
    ⟨fun h => ⟨h.1, h.2⟩, fun h => ⟨h.ends, h.fits⟩⟩

theorem dataLoop_consumes {cfg : Config} {fuel : Nat} {message : Message} {messageSize : Nat}
    {c : Conn} (enough : c.env.input.length < fuel) (counted : message.text.length ≤ messageSize)
    (ends : terminator ∈ (readLines 0 [] c.env.input).lines ∨
      (readLines 0 [] c.env.input).unread = [])
    (fits : Fits cfg messageSize (bodyLines c.env.input) c.env.appends) :
    (dataLoop cfg fuel message messageSize c).2.env.input <:+ afterBody [] c.env.input := by
  induction fuel generalizing message messageSize c with
  | zero => exact absurd enough (Nat.not_lt_zero _)
  | succ fuel ih =>
      cases read : readLine c with
      | mk result c' =>
      cases result with
      | failed =>
          have lines := (readLine_fails read).1
          have exhausted : c'.env.input = [] := by simpa [lines] using ends
          rw [dataLoop, read]
          dsimp only
          rw [exhausted]
          exact List.nil_suffix
      | escaped =>
          have lines := (readLine_escapes read).1
          have exhausted : c'.env.input = [] := by simpa [lines] using ends
          rw [dataLoop, read]
          dsimp only
          rw [exhausted]
          exact List.nil_suffix
      | line line =>
      have lines := (readLine_delivers read).1
      rw [readLine_afterBody read]
      by_cases last : line = terminator
      · rw [if_pos last, dataLoop, read]
        dsimp only
        rw [if_pos last]
        exact List.suffix_rfl
      have body : bodyLines c.env.input = line :: bodyLines c'.env.input := by
        simp [bodyLines, lines, last]
      rw [body] at fits
      rw [if_neg last]
      rcases dataLoop_line cfg fuel read last counted with
        ⟨message', d, counted', -, -, step, input, appends, -⟩ | ⟨unfit, -⟩
      · have shorter := readLine_shorter read
        rw [step, ← input]
        apply ih (by rw [input]; omega) counted'
        · rw [input]
          simpa [lines, Ne.symm last] using ends
        · rw [input, appends]
          exact (fits_cons.mp fits).2
      · exact absurd fits (unfit _)

theorem bodyLoop_consumes {cfg : Config} {c : Conn} (whole : BodyWhole cfg c) :
    (bodyLoop cfg c).2.env.input <:+ afterBody [] c.env.input :=
  dataLoop_consumes (Nat.lt_succ_self _) (Nat.zero_le _) whole.ends whole.fits

/-! ## The log of a run -/

/-- A command that was read later than a body was read from behind it. -/
def Event.Behind : Event → Event → Prop
  | .command _ start, .body unread => start <:+ afterBody [] unread
  | _, _ => True

instance : DecidableRel Event.Behind
  | .command _ start, .body unread => inferInstanceAs (Decidable (start <:+ afterBody [] unread))
  | .command _ _, .reply _ | .command _ _, .authenticate _ | .command _ _, .command _ _
  | .command _ _, .bodyLine _ | .command _ _, .store _ _ _ | .command _ _, .socketClosed
  | .reply _, _ | .authenticate _, _ | .body _, _ | .bodyLine _, _ | .store _ _ _, _
  | .socketClosed, _ => inferInstanceAs (Decidable True)

/-- No line of a body, its terminator included, is passed to `handleCommand`:
    every later command line is read from behind the body. -/
def BodySafe (log : List Event) : Prop := log.Pairwise Event.Behind

instance (log : List Event) : Decidable (BodySafe log) :=
  inferInstanceAs (Decidable (log.Pairwise Event.Behind))

/-- The log is safe and the stream stands behind every body. -/
structure Framed (c : Conn) : Prop where
  safe : BodySafe c.env.log
  behind : ∀ unread, .body unread ∈ c.env.log → c.env.input <:+ afterBody [] unread

def Event.isCommand : Event → Prop
  | .command _ _ => True
  | _ => False

theorem BodySafe.logs {c c' : Conn} (safe : BodySafe c.env.log)
    (logs : Logs (fun e => ¬ e.isCommand) c c') : BodySafe c'.env.log := by
  obtain ⟨new, log, each⟩ := logs
  have unconcerned : ∀ e ∈ new, ∀ other, Event.Behind e other := by
    intro e member other
    have := each e member
    cases e with
    | command => exact absurd trivial this
    | _ => trivial
  rw [log, BodySafe, List.pairwise_append]
  refine ⟨?_, safe, fun e member other _ => unconcerned e member other⟩
  exact List.pairwise_of_forall_mem_list fun e member other _ => unconcerned e member other

theorem Framed.waits {c c' : Conn} (framed : Framed c) (waits : Waits c c') : Framed c' := by
  have quiet : Logs (fun e => ¬ e.isCommand) c c' := by
    refine waits.log.mono fun e reply command => ?_
    cases e with
    | reply => exact command
    | body | bodyLine | command | authenticate | store | socketClosed => exact reply
  obtain ⟨new, log, each⟩ := waits.log
  refine ⟨framed.safe.logs quiet, ?_⟩
  intro unread member
  rw [log] at member
  rcases List.mem_append.mp member with now | before
  · exact absurd (each _ now) id
  · exact waits.input.trans (framed.behind unread before)

/-- A command line is read where the stream stands. -/
theorem Framed.head {cfg : Config} {c c' : Conn} {line : Bytes} (framed : Framed c)
    (head : nextCommand cfg c = .command line c') : Framed c' := by
  rcases nextCommand_cases cfg c with ⟨d, other, -⟩ | ⟨d, other, -⟩ |
    ⟨line, d, same, -, log, input, -⟩
  · rw [head] at other
    cases other
  · rw [head] at other
    cases other
  rw [head] at same
  cases same
  refine ⟨?_, fun unread member => ?_⟩
  · rw [log]
    refine List.pairwise_cons.mpr ⟨fun e member => ?_, framed.safe⟩
    cases e with
    | body unread => exact framed.behind unread member
    | _ => trivial
  · rw [log] at member
    rcases List.mem_cons.mp member with now | before
    · cases now
    · exact input.trans (framed.behind unread before)

theorem Framed.receive {cfg : Config} {c : Conn} (framed : Framed c)
    (recipients : c.session.rcptTo ≠ []) (whole : BodyWhole cfg c) :
    Framed (handleData cfg c).conn := by
  have consumed := bodyLoop_consumes whole
  have received : Receives (askedForBody c) (bodyLoop cfg c).2 := dataLoop_receives ..
  have looped : ∀ {d : Conn}, d.env.input = (bodyLoop cfg c).2.env.input →
      Logs (fun e => ¬ e.isCommand ∧ ∀ unread, e ≠ .body unread) (bodyLoop cfg c).2 d → Framed d := by
    intro d input logs
    have reading : Logs (fun e => ¬ e.isCommand ∧ ∀ unread, e ≠ .body unread) (askedForBody c) d := by
      refine (received.log.mono fun e receiving => ?_).trans logs
      cases e with
      | reply | bodyLine => exact ⟨id, by simp⟩
      | body | command | authenticate | store | socketClosed => exact absurd receiving id
    have quiet : Logs (fun e => ¬ e.isCommand) c d := by
      have asked : Logs (fun e => ¬ e.isCommand) c (askedForBody c) :=
        ((Logs.refl c).record (show ¬ Event.isCommand (.reply _) from id)).record
          (show ¬ Event.isCommand (.body _) from id)
      exact asked.trans (reading.mono fun e h => h.1)
    refine ⟨framed.safe.logs quiet, ?_⟩
    intro unread member
    rw [input]
    obtain ⟨new, log, each⟩ := reading
    rw [log] at member
    rcases List.mem_append.mp member with now | before
    · exact absurd rfl ((each _ now).2 unread)
    rcases List.mem_cons.mp before with this | before
    · cases this
      exact consumed
    rcases List.mem_cons.mp before with other | before
    · cases other
    · exact received.input.trans (framed.behind unread before)
  rw [handleData_loop cfg recipients]
  cases loop : bodyLoop cfg c with
  | mk exit mid =>
  rw [loop] at looped
  cases exit with
  | store message =>
      apply looped (storeMessage_input message mid)
      refine (storeMessage_logs message mid).mono fun e sent => ?_
      cases e with
      | reply | store => exact ⟨id, by simp⟩
      | body | bodyLine | command | authenticate | socketClosed => exact absurd sent id
  | returned | threw => exact looped rfl (.refl _)

/-- A command keeps the stream framed if the body it may receive gets through. -/
theorem Framed.command {cfg : Config} {c : Conn} {line : Bytes} (framed : Framed c)
    (whole : EntersData cfg line c → BodyWhole cfg c) :
    Framed (isolate (handleCommand cfg line c)) := by
  rcases handleCommand_cases cfg line c with ⟨enters, same⟩ | ⟨-, c', same, aside⟩
  · have received := framed.receive enters.recipients (whole enters)
    rw [same]
    cases handled : handleData cfg c with
    | ok d =>
        rw [handled] at received
        exact ⟨received.safe, received.behind⟩
    | error d =>
        rw [handled] at received
        exact received.waits ⟨rfl, (Logs.refl d).record (show Event.isReply (.reply _) from trivial),
          List.suffix_rfl⟩
  · rw [same]
    have quiet : Logs (fun e => ¬ e.isCommand) c c' := by
      refine aside.log.mono fun e allowed command => ?_
      cases e with
      | reply | authenticate | socketClosed => exact command
      | body | bodyLine | command | store => exact allowed
    obtain ⟨new, log, each⟩ := aside.log
    refine ⟨framed.safe.logs quiet, ?_⟩
    intro unread member
    show c'.env.input <:+ _
    rw [aside.input]
    have member : Event.body unread ∈ c'.env.log := member
    rw [log] at member
    exact framed.behind unread ((List.mem_append.mp member).resolve_left (each _))

/-- For every run and every stream: if every body that is asked for gets
    through, no line of a body is ever executed. -/
theorem bodies_never_executed (cfg : Config) (allowed tlsActive : Bool) (env : Env)
    (whole : ThroughoutRun cfg (fun line c => EntersData cfg line c → BodyWhole cfg c)
      (Conn.fresh tlsActive env)) :
    BodySafe (run cfg allowed (Conn.fresh tlsActive env)).env.log := by
  have fresh : Framed (Conn.fresh tlsActive env) :=
    ⟨List.Pairwise.nil, by simp [Conn.fresh]⟩
  have framed : Framed (run cfg allowed (Conn.fresh tlsActive env)) := by
    refine run_invariant (fun c c' framed waits => framed.waits waits)
      (fun c line c' framed head whole => (framed.head head).command whole) (fun c framed => ?_)
      whole fresh
    refine ⟨List.pairwise_cons.mpr ⟨fun _ _ => trivial, framed.safe⟩, fun unread member => ?_⟩
    exact framed.behind unread (by simpa using member)
  exact framed.safe

/-- A body that consists of a command stays a body. -/
theorem bodies_never_executed_quit :
    BodySafe (run { minTlsVersion := TLS1_2_VERSION } true (Conn.fresh true
      { input := arriving (ascii
          "EHLO c\r\nAUTH PLAIN x\r\nMAIL FROM:<a>\r\nRCPT bob\r\nDATA\r\nQUIT\r\n.\r\nQUIT\r\n")
        auths := [⟨some true, ascii "alice"⟩]
        stores := [some (ascii "1")] })).env.log :=
  bodies_never_executed _ _ _ _ (by decide +kernel)

/-- A line of 1030 characters ends the message early, and the line that follows
    it in the body is executed. -/
theorem body_line_executed :
    let log := (run { minTlsVersion := TLS1_2_VERSION } true (Conn.fresh true
      { input := arriving (ascii
            "EHLO c\r\nAUTH PLAIN x\r\nMAIL FROM:<a>\r\nRCPT bob\r\nDATA\r\n" ++
          List.replicate 1030 65 ++ ascii "\r\nRSET\r\n.\r\n")
        auths := [⟨some true, ascii "alice"⟩]
        stores := [some (ascii "1")] })).env.log
    .command (ascii "RSET") (arriving (ascii "RSET\r\n.\r\n")) ∈ log ∧ ¬ BodySafe log := by
  decide +kernel

end EmailServer.Smtp
