import EmailServer.Storage.MailStore

/-! # SMTP sessions

`SmtpSession` as a function on the session's fields and its environment. The
environment holds what the outside answers, in order: received bytes, clock
readings, TLS handshakes, authentications, memory for the message being read,
and the mail store. A list that has run out answers as the default of its kind
does. Everything the session does to the outside is recorded in a log.

Metrics and the unused results of SPF, DKIM and DMARC are left out. Log lines
can throw. The ones of `readLine` and those below the read loop of `DATA` are
modelled; the others, of a handshake, of an authentication or of a command that
has crashed, are taken not to.
-/

namespace EmailServer.Smtp

open Storage (StoredMessage)

inductive SmtpState where
  | connected
  | heloEhlo
  | auth
  | mailFrom
  | rcptTo
  | data
  deriving DecidableEq

/-- The part of the configuration that sessions read, with its defaults. The
    least TLS version has none. -/
structure Config where
  domain : Bytes := ascii "example.com"
  maxMessageSize : Nat := 10485760
  smtpTimeout : Nat := 300
  dataTimeout : Nat := 600
  tlsRequired : Bool := false
  requireStartTls : Bool := false
  minTlsVersion : Nat

def TLS1_2_VERSION : Nat := 0x0303

structure SmtpSession where
  tlsActive : Bool
  state : SmtpState
  lastActivity : Nat
  /-- `sock_ != INVALID_SOCKET` -/
  sockOpen : Bool
  authed : Bool
  username : Bytes
  heloDomain : Bytes
  mailFrom : Bytes
  rcptTo : List Bytes
  deriving DecidableEq

/-- What `secureRecv` does when asked for one byte. `escaped` is a byte at which
    an exception leaves `readLine`: there is no memory for it, or a log line
    throws in a handler. -/
inductive Recv where
  | byte (c : UInt8)
  | failed
  | closed
  | threw
  | escaped
  deriving DecidableEq

/-- How a TLS handshake goes; an accepted one has a version and perhaps a cipher. -/
inductive Handshake where
  | noSsl
  | notAccepted
  | accepted (version : Nat) (cipherBits : Option Nat)
  | threw

/-- What `authenticateSmtp` answers, unless it throws, and the username it
    leaves in its reference argument. -/
structure AuthAnswer where
  accepted : Option Bool
  username : Bytes

/-- Whether there is memory for a line of the message. `copyFailed` is the copy of
    the message that the size check makes, or the one for the mail store; it
    throws. An insertion does not throw when memory runs out: `lost` leaves some
    bytes of the line behind and the stream bad. -/
inductive Append where
  | done
  | copyFailed
  | lost (kept : Nat)
  deriving DecidableEq

inductive Event where
  | reply (line : Bytes)
  | authenticate (args : Bytes)
  /-- `handleCommand` is called with a line read from `unread` on. -/
  | command (line : Bytes) (unread : List Recv)
  /-- A body is asked for and begins with `unread`. -/
  | body (unread : List Recv)
  | bodyLine (line : Bytes)
  /-- `mailStore.store(msg)`; its answer is missing if it throws. -/
  | store (session : SmtpSession) (msg : StoredMessage) (answer : Option Bytes)
  | socketClosed
  deriving DecidableEq

structure Env where
  input : List Recv
  now : Nat := 0
  /-- Ticks that pass before each reading of the clock. -/
  waits : List Nat := []
  handshakes : List Handshake := []
  auths : List AuthAnswer := []
  appends : List Append := []
  stores : List (Option Bytes) := []
  /-- Whether the next log line behind the call of the mail store throws. -/
  logs : List Bool := []
  /-- Latest first. -/
  log : List Event := []

/-- Bytes that arrive without disturbance. -/
def arriving (text : Bytes) : List Recv := text.map .byte

/-- A session and its environment. -/
structure Conn where
  session : SmtpSession
  env : Env

/-- Ticks of the steady clock in a second. -/
def steadyTicksPerSecond : Nat := 1000000000

/-- A session as the constructors leave it. -/
def SmtpSession.fresh (tlsActive : Bool) (now : Nat) : SmtpSession where
  tlsActive := tlsActive
  state := .connected
  lastActivity := now
  sockOpen := true
  authed := false
  username := []
  heloDomain := []
  mailFrom := []
  rcptTo := []

/-- A fresh session in front of any environment. -/
def Conn.fresh (tlsActive : Bool) (env : Env) : Conn :=
  ⟨.fresh tlsActive env.now, { env with log := [] }⟩

namespace Conn

/-! ## Helpers -/

def record (c : Conn) (event : Event) : Conn :=
  { c with env := { c.env with log := event :: c.env.log } }

/-- Sending cannot fail: `sendLine` catches whatever happens. -/
def sendLine (c : Conn) (line : Bytes) : Conn := c.record (.reply line)

/-- Every line but the last ends in a dash. -/
def sendMultilineResponse (c : Conn) : List Bytes → Conn
  | [] => c
  | [last] => c.sendLine last
  | line :: rest => (c.sendLine (line ++ ascii "-")).sendMultilineResponse rest

def enter (c : Conn) (state : SmtpState) : Conn :=
  { c with session := { c.session with state := state } }

/-- `closesocket(sock_); sock_ = INVALID_SOCKET;` -/
def closeSocket (c : Conn) : Conn :=
  { c with session := { c.session with sockOpen := false } }.record .socketClosed

/-- The next reading of the clock. -/
def readClock (c : Conn) : Nat × Conn :=
  let now := c.env.now + c.env.waits.headD 0
  (now, { c with env := { c.env with now := now, waits := c.env.waits.tail } })

end Conn

/-- How `readLine` ends: with a line, with one of its ways to return false, or
    with an exception. -/
inductive LineResult where
  | line (out : Bytes)
  | closed
  | tooManyErrors
  | threw
  | tooLong
  | escaped
  deriving DecidableEq

/-- What its caller sees of it. -/
inductive Read where
  | line (out : Bytes)
  | failed
  | escaped
  deriving DecidableEq

/-- The loop of `readLine`, with the bytes still to be received afterwards. -/
def readFrom (consecutiveErrors : Nat) (out : Bytes) : List Recv → LineResult × List Recv
  | [] => (.closed, [])
  | .closed :: rest => (.closed, rest)
  | .threw :: rest => (.threw, rest)
  | .escaped :: rest => (.escaped, rest)
  | .failed :: rest =>
      if consecutiveErrors + 1 > 3 then (.tooManyErrors, rest)
      else readFrom (consecutiveErrors + 1) out rest
  | .byte c :: rest =>
      if c = Bytes.cr then readFrom 0 out rest
      else if c = Bytes.lf then (.line out, rest)
      else if (out ++ [c]).length > 1024 then (.tooLong, rest)
      else readFrom 0 (out ++ [c]) rest

def readLine (c : Conn) : Read × Conn :=
  let (result, rest) := readFrom 0 [] c.env.input
  let c := { c with env := { c.env with input := rest } }
  match result with
  | .line out => (.line out, c)
  | .tooLong => (.failed, c.sendLine (ascii "500 Line too long"))
  | .closed | .tooManyErrors | .threw => (.failed, c)
  | .escaped => (.escaped, c)

def splitCommand (line : Bytes) : Bytes × Bytes :=
  let rest := line.dropWhile Bytes.isSpace
  let args := (rest.dropWhile fun b => !Bytes.isSpace b).takeWhile (· != Bytes.lf)
  (rest.takeWhile fun b => !Bytes.isSpace b,
    if args.head? = some Bytes.space then args.tail else args)

/-- The timeout in seconds that applies in a state. -/
def timeoutSeconds (cfg : Config) : SmtpState → Nat
  | .connected => 60
  | .data => cfg.dataTimeout
  | _ => cfg.smtpTimeout

def isTimeoutExceeded (cfg : Config) (c : Conn) : Bool × Conn :=
  let (now, c) := c.readClock
  (decide ((now - c.session.lastActivity) / steadyTicksPerSecond >
    timeoutSeconds cfg c.session.state), c)

def updateActivity (c : Conn) : Conn :=
  let (now, c) := c.readClock
  { c with session := { c.session with lastActivity := now } }

namespace SmtpSession

def tlsRequiredAndMissing (cfg : Config) (s : SmtpSession) : Bool :=
  cfg.tlsRequired && !s.tlsActive

def startTlsRequiredAndMissing (cfg : Config) (s : SmtpSession) : Bool :=
  cfg.requireStartTls && !s.tlsActive

end SmtpSession

/-- `TlsEnforcement::validateTlsConnection` -/
def validateTlsConnection (cfg : Config) (version : Nat) (cipherBits : Option Nat) : Bool :=
  cfg.minTlsVersion != 0 && decide (cfg.minTlsVersion ≤ version) &&
    cipherBits.all fun bits => decide (128 ≤ bits)

end EmailServer.Smtp
