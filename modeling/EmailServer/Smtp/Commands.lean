import EmailServer.Smtp.Session

/-! # SMTP commands

The handlers of `SmtpSession`, the dispatch in `handleCommand`, and the loop of
`run`. A command ends normally or with an exception, in either case in some
connection; only `handleData` can let one escape.
-/

namespace EmailServer.Smtp

open Storage (StoredMessage)

/-- How a command ends: normally, or with an exception that escapes it. -/
abbrev Ended := Except Conn Conn

/-- The connection a command leaves, however it ended. -/
def Ended.conn : Ended → Conn
  | .ok c => c
  | .error c => c

/-! ## Handlers -/

/-- Give up on a handshake. -/
def refuseTls (c : Conn) (line : Bytes) : Conn := (c.sendLine line).closeSocket

def handleStarttls (cfg : Config) (c : Conn) : Conn :=
  if c.session.tlsActive then c.sendLine (ascii "454 TLS already active") else
    let answer := c.env.handshakes.headD .noSsl
    let c := c.sendLine (ascii "220 Ready to start TLS")
    let c := { c with env := { c.env with handshakes := c.env.handshakes.tail } }
    match answer with
    | .noSsl | .notAccepted | .threw => refuseTls c (ascii "454 TLS negotiation failed")
    | .accepted version cipherBits =>
        if !validateTlsConnection cfg version cipherBits then
          refuseTls c (ascii "454 TLS security requirements not met")
        else
          { c with session :=
            { c.session with
              tlsActive := true
              authed := false
              username := []
              heloDomain := []
              mailFrom := []
              rcptTo := [] } }

def capabilities (cfg : Config) (tlsActive : Bool) : List Bytes :=
  [cfg.domain, ascii "PIPELINING", ascii "SIZE " ++ toDecimal cfg.maxMessageSize,
    ascii "8BITMIME", ascii "SMTPUTF8"] ++
  (if tlsActive then [ascii "AUTH LOGIN PLAIN"] else [ascii "STARTTLS"]) ++ [ascii "HELP"]

def handleEhlo (cfg : Config) (arg : Bytes) (c : Conn) : Conn :=
  Conn.sendMultilineResponse { c with session := { c.session with heloDomain := arg } }
    (capabilities cfg c.session.tlsActive)

def handleHelo (cfg : Config) (arg : Bytes) (c : Conn) : Conn :=
  Conn.sendLine { c with session := { c.session with heloDomain := arg } }
    (ascii "250 " ++ cfg.domain)

def handleAuth (args : Bytes) (c : Conn) : Conn :=
  if c.session.authed then c.sendLine (ascii "503 Already authenticated") else
    let answer := c.env.auths.headD ⟨some false, c.session.username⟩
    let c := c.record (.authenticate args)
    let c := { c with
      session := { c.session with username := answer.username }
      env := { c.env with auths := c.env.auths.tail } }
    match answer.accepted with
    | some true =>
        Conn.sendLine { c with session := { c.session with authed := true } }
          (ascii "235 Authentication successful")
    | some false => c.sendLine (ascii "535 Authentication failed")
    | none => c.sendLine (ascii "451 Internal error - authentication failed")

def handleMailFrom (args : Bytes) (c : Conn) : Conn :=
  Conn.sendLine { c with session := { c.session with mailFrom := args, rcptTo := [] } }
    (ascii "250 OK")

def handleRcptTo (args : Bytes) (c : Conn) : Conn :=
  Conn.sendLine { c with session := { c.session with rcptTo := c.session.rcptTo ++ [args] } }
    (ascii "250 OK")

def handleQuit (c : Conn) : Conn := (c.sendLine (ascii "221 Bye")).closeSocket

/-! ## Receiving a message -/

/-- The `std::ostringstream` that collects a message. -/
structure Message where
  text : Bytes := []
  bad : Bool := false

/-- `message << line << "\n"`. No mask is set on the stream, so a failed
    allocation makes it bad and nothing else: the handlers around the insertion
    are never entered. What is inserted into a bad stream is lost. -/
def Message.insert (message : Message) (line : Bytes) : Append → Message
  | .lost kept =>
      if message.bad then message
      else ⟨message.text ++ (line ++ [Bytes.lf]).take kept, true⟩
  | .done | .copyFailed =>
      if message.bad then message else { message with text := message.text ++ line ++ [Bytes.lf] }

/-- How the read loop of `handleData` ends: at the code below it, or before. -/
inductive DataExit where
  | store (message : Bytes)
  | returned
  | threw
  deriving DecidableEq

/-- The line that ends a body, `"."`. -/
def terminator : Bytes := [Bytes.dot]

/-- Remove the extra dot. -/
def unstuff (line : Bytes) : Bytes := if line.head? = some Bytes.dot then line.tail else line

/-- How the next append goes. -/
def nextAppend (c : Conn) : Append × Conn :=
  (c.env.appends.headD .done, { c with env := { c.env with appends := c.env.appends.tail } })

/-- The read loop. Every line takes input, so more fuel than input suffices. The
    replies to a failed insertion are left out, they are never sent. -/
def dataLoop (cfg : Config) : Nat → Message → Nat → Conn → DataExit × Conn
  | 0, _, _, c => (.returned, c)
  | fuel + 1, message, messageSize, c =>
    match readLine c with
    | (.failed, c) => (.store message.text, c)
    | (.escaped, c) => (.threw, c)
    | (.line line, c) =>
      let c := c.record (.bodyLine line)
      if line = terminator then (.store message.text, c) else
      let line := unstuff line
      let messageSize := messageSize + (line.length + 2)
      if messageSize > cfg.maxMessageSize then
        (.returned, c.sendLine (ascii "552 Message size exceeds maximum permitted")) else
      match nextAppend c with
      | (.copyFailed, c) => (.threw, c)
      | (answer, c) =>
        if message.text.length > cfg.maxMessageSize * 2 then
          (.returned, c.sendLine (ascii "451 Internal error - message too complex")) else
        dataLoop cfg fuel (message.insert line answer) messageSize c

/-- The message handed to the mail store: it goes to the first recipient's mailbox. -/
def messageOf (s : SmtpSession) (message : Bytes) : StoredMessage where
  id := []
  sender := s.mailFrom
  recipients := s.rcptTo
  rawData := message
  mailboxUser := s.rcptTo.headD []

def accepted : Bytes := ascii "250 Message accepted for delivery"

def storageError : Bytes := ascii "451 Internal error - storage failed"

/-- Whether the next log line throws. -/
def nextLog (c : Conn) : Bool × Conn :=
  (c.env.logs.headD false, { c with env := { c.env with logs := c.env.logs.tail } })

/-- The handlers of the code below the read loop. Their log line comes first. -/
def storageFailed (c : Conn) : Ended :=
  match nextLog c with
  | (true, c) => .error c
  | (false, c) => .ok (c.sendLine storageError)

/-- The code below the read loop. The acceptance is sent inside the `try`, before
    the log line that can still fail. -/
def storeMessage (message : Bytes) (c : Conn) : Ended :=
  match nextAppend c with
  | (.copyFailed, c) => storageFailed c
  | (_, c) =>
    let answer := c.env.stores.headD none
    let c := { c with env := { c.env with stores := c.env.stores.tail } }
    let c := c.record (.store c.session (messageOf c.session message) answer)
    match answer with
    | none => storageFailed c
    | some [] =>
        match nextLog c with
        | (true, c) => storageFailed c
        | (false, c) => .ok (c.sendLine storageError)
    | some _ =>
        match nextLog (c.sendLine accepted) with
        | (true, c) => storageFailed c
        | (false, c) => .ok c

def handleData (cfg : Config) (c : Conn) : Ended :=
  if c.session.rcptTo = [] then .ok (c.sendLine (ascii "503 No recipients specified")) else
    let c := c.sendLine (ascii "354 End data with <CR><LF>.<CR><LF>")
    let c := c.record (.body c.env.input)
    match dataLoop cfg (c.env.input.length + 1) {} 0 c with
    | (.store message, c) => storeMessage message c
    | (.returned, c) => .ok c
    | (.threw, c) => .error c

/-! ## Dispatch -/

inductive Verb where
  | ehlo
  | helo
  | starttls
  | auth
  | mail
  | rcpt
  | data
  | quit
  | rset
  | noop
  | unknown
  deriving DecidableEq

def verbOf (ucmd : Bytes) : Verb :=
  if ucmd = ascii "EHLO" then .ehlo
  else if ucmd = ascii "HELO" then .helo
  else if ucmd = ascii "STARTTLS" then .starttls
  else if ucmd = ascii "AUTH" then .auth
  else if ucmd = ascii "MAIL" then .mail
  else if ucmd = ascii "RCPT" then .rcpt
  else if ucmd = ascii "DATA" then .data
  else if ucmd = ascii "QUIT" then .quit
  else if ucmd = ascii "RSET" then .rset
  else if ucmd = ascii "NOOP" then .noop
  else .unknown

def commandVerb (line : Bytes) : Verb := verbOf ((splitCommand line).1.map Bytes.toUpper)

def badSequence (c : Conn) : Ended := .ok (c.sendLine (ascii "503 Bad sequence of commands"))

def needsStarttls (c : Conn) : Ended := .ok (c.sendLine (ascii "530 Must issue STARTTLS first"))

def handleCommand (cfg : Config) (line : Bytes) (c : Conn) : Ended :=
  let args := (splitCommand line).2
  match commandVerb line with
  | .ehlo => .ok ((handleEhlo cfg args c).enter .heloEhlo)
  | .helo => .ok ((handleHelo cfg args c).enter .heloEhlo)
  | .starttls =>
      if c.session.state = .connected then badSequence c else .ok (handleStarttls cfg c)
  | .auth =>
      if c.session.state = .connected then badSequence c
      else if c.session.startTlsRequiredAndMissing cfg then needsStarttls c
      else
        let c := handleAuth args c
        .ok (if c.session.authed then c.enter .auth else c)
  | .mail =>
      if c.session.state = .connected then badSequence c
      else if c.session.tlsRequiredAndMissing cfg then needsStarttls c
      else if !c.session.authed then .ok (c.sendLine (ascii "530 Authentication required"))
      else .ok ((handleMailFrom args c).enter .mailFrom)
  | .rcpt =>
      if c.session.state ≠ .mailFrom ∧ c.session.state ≠ .rcptTo then badSequence c
      else if c.session.tlsRequiredAndMissing cfg then needsStarttls c
      else .ok ((handleRcptTo args c).enter .rcptTo)
  | .data =>
      if c.session.state ≠ .rcptTo then badSequence c
      else if c.session.tlsRequiredAndMissing cfg then needsStarttls c
      else (handleData cfg c).map fun c =>
        { c with session := { c.session with state := .mailFrom, mailFrom := [], rcptTo := [] } }
  | .quit => .ok (handleQuit c)
  | .rset =>
      .ok (Conn.sendLine
        { c with session :=
          { c.session with
            authed := false
            username := []
            mailFrom := []
            rcptTo := []
            state := .heloEhlo } }
        (ascii "250 OK"))
  | .noop => .ok (c.sendLine (ascii "250 OK"))
  | .unknown => .ok (c.sendLine (ascii "502 Command not implemented"))

/-! ## The session loop -/

/-- What the head of the loop comes to. -/
inductive Next where
  | ended (c : Conn)
  | skipped (c : Conn)
  | command (line : Bytes) (c : Conn)

/-- The loop up to the call of `handleCommand`. An exception from `readLine` is
    caught outside the loop. -/
def nextCommand (cfg : Config) (c : Conn) : Next :=
  let unread := c.env.input
  match readLine c with
  | (.failed, c) | (.escaped, c) => .ended c
  | (.line [], c) => .skipped c
  | (.line line, c) =>
      match isTimeoutExceeded cfg c with
      | (true, c) => .ended (c.sendLine (ascii "421 Timeout - closing connection"))
      | (false, c) => .command line ((updateActivity c).record (.command line unread))

/-- An exception that escapes a command is answered and the session goes on. -/
def isolate : Ended → Conn
  | .ok c => c
  | .error c => c.sendLine (ascii "451 Internal error - command failed")

/-- The loop. Every iteration takes input, so more fuel than input suffices. -/
def runLoop (cfg : Config) : Nat → Conn → Conn
  | 0, c => c
  | fuel + 1, c =>
    match nextCommand cfg c with
    | .ended c => c
    | .skipped c => runLoop cfg fuel c
    | .command line c =>
        let c := isolate (handleCommand cfg line c)
        if c.session.sockOpen then runLoop cfg fuel c else c

def greet (cfg : Config) (c : Conn) : Conn :=
  c.sendLine (ascii "220 " ++ cfg.domain ++ ascii " ESMTP ready")

/-- `allowed` is the answer of the rate limiter, on which `run` returns before
    its cleanup. -/
def run (cfg : Config) (allowed : Bool) (c : Conn) : Conn :=
  let c := greet cfg c
  if !allowed then (c.sendLine (ascii "421 Too many connections")).record .socketClosed else
    let c := runLoop cfg (c.env.input.length + 1) c
    if c.session.sockOpen then c.record .socketClosed else c

end EmailServer.Smtp
