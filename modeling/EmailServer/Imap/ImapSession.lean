import EmailServer.Core.InputValidator
import EmailServer.Smtp.Session

/-! # IMAP sessions

`ImapSession` as a function on the session's fields and its environment, as the
SMTP sessions are modelled: the environment holds the received bytes, the TLS
handshakes and the answers of `validate` in order, and a log of what the session
does to the outside. The two log lines of `STARTTLS` are left out; one that throws
ends the session where it stands.
-/

namespace EmailServer.Imap

open EmailServer.Core
open Smtp (Handshake Recv arriving)

/-- What a handshake has negotiated: the version, and the strength of the cipher
    if there is one. -/
structure TlsConnection where
  version : Nat
  cipherBits : Option Nat
  deriving DecidableEq

structure ImapSession where
  /-- `ssl_` -/
  ssl : Option TlsConnection
  tlsActive : Bool
  /-- `sock_ != INVALID_SOCKET` -/
  sockOpen : Bool
  authed : Bool
  username : Bytes
  deriving DecidableEq

/-- A session as the constructors leave it. -/
def ImapSession.fresh (ssl : Option TlsConnection) : ImapSession where
  ssl := ssl
  tlsActive := ssl.isSome
  sockOpen := true
  authed := false
  username := []

inductive Event where
  | reply (line : Bytes)
  /-- The handshake of a `STARTTLS` succeeded. -/
  | handshaken (connection : TlsConnection)
  /-- `validate(user, pass)` was called; its answer is missing if it throws. -/
  | validate (session : ImapSession) (user pass : Bytes) (answer : Option Bool)
  | socketClosed
  deriving DecidableEq

structure Env where
  input : List Recv := []
  handshakes : List Handshake := []
  validates : List (Option Bool) := []
  /-- Latest first. -/
  log : List Event := []

/-- A session and its environment. -/
structure Conn where
  session : ImapSession
  env : Env

/-- A fresh session in front of any environment. -/
def Conn.fresh (ssl : Option TlsConnection) (env : Env) : Conn :=
  ⟨.fresh ssl, { env with log := [] }⟩

namespace Conn

def record (c : Conn) (event : Event) : Conn :=
  { c with env := { c.env with log := event :: c.env.log } }

def sendLine (c : Conn) (line : Bytes) : Conn := c.record (.reply line)

/-- `closesocket(sock_); sock_ = INVALID_SOCKET;` -/
def closeSocket (c : Conn) : Conn :=
  { c with session := { c.session with sockOpen := false } }.record .socketClosed

end Conn

/-- How a command ends: normally, or with an exception that escapes it. -/
abbrev Ended := Except Conn Conn

/-- The connection a command leaves, however it ended. -/
def Ended.conn : Ended → Conn
  | .ok c => c
  | .error c => c

/-! ## Reading -/

/-- The next word, as `>>` reads it, and what follows it. -/
def word (text : Bytes) : Bytes × Bytes :=
  let rest := text.dropWhile Bytes.isSpace
  (rest.takeWhile fun c => !Bytes.isSpace c, rest.dropWhile fun c => !Bytes.isSpace c)

structure Command where
  tag : Bytes
  cmd : Bytes
  args : Bytes

def splitImap (line : Bytes) : Command :=
  let (tag, rest) := word line
  let (cmd, rest) := word rest
  let args := rest.takeWhile (· != Bytes.lf)
  ⟨tag, cmd, if args.head? = some Bytes.space then args.tail else args⟩

/-- The loop of `readLine`: a line, unless the connection ends first, and the
    bytes still to be received. -/
def readFrom (out : Bytes) : List Recv → Option Bytes × List Recv
  | .byte c :: rest =>
      if c = Bytes.cr then readFrom out rest
      else if c = Bytes.lf then (some out, rest)
      else readFrom (out ++ [c]) rest
  | _ :: rest => (none, rest)
  | [] => (none, [])

/-! ## Handlers -/

def handleCapability (tag : Bytes) (c : Conn) : Conn :=
  (c.sendLine (ascii "* CAPABILITY IMAP4rev1" ++
    if c.session.tlsActive then ascii " AUTH=LOGIN" else ascii " STARTTLS")).sendLine
      (tag ++ ascii " OK CAPABILITY completed")

/-- Nothing keeps a client from starting TLS again. -/
def handleStarttls (tag : Bytes) (c : Conn) : Ended :=
  let c := c.sendLine (tag ++ ascii " OK Begin TLS negotiation")
  let answer := c.env.handshakes.headD .noSsl
  let c := { c with env := { c.env with handshakes := c.env.handshakes.tail } }
  match answer with
  | .threw => .error c
  | .noSsl | .notAccepted => .ok (c.sendLine (tag ++ ascii " NO TLS negotiation failed"))
  | .accepted version cipherBits =>
      let c := { c with session :=
        { c.session with ssl := some ⟨version, cipherBits⟩, tlsActive := true } }
      let c := (c.record (.handshaken ⟨version, cipherBits⟩)).sendLine
        (ascii "* OK TLS active - resend CAPABILITY")
      .ok { c with session := { c.session with authed := false, username := [] } }

def quote : UInt8 := 34

/-- The text without the quotes around it. -/
def stripQuotes (text : Bytes) : Bytes :=
  if 2 ≤ text.length ∧ text.head? = some quote ∧ text.getLast? = some quote then
    (text.drop 1).take (text.length - 2)
  else text

def handleLogin (tag args : Bytes) (c : Conn) : Ended :=
  if c.session.authed then .ok (c.sendLine (tag ++ ascii " BAD Already authenticated")) else
    let (user, rest) := word args
    let (pass, _) := word rest
    if user = [] ∨ pass = [] then
      .ok (c.sendLine (tag ++ ascii " BAD LOGIN requires username and password")) else
    let user := stripQuotes user
    let pass := stripQuotes pass
    if !InputValidator.isValidUsername user then
      .ok (c.sendLine (tag ++ ascii " NO LOGIN failed - invalid username")) else
    let answer := c.env.validates.headD (some false)
    let c := { c with env := { c.env with validates := c.env.validates.tail } }
    let c := c.record (.validate c.session user pass answer)
    match answer with
    | none => .error c
    | some false => .ok (c.sendLine (tag ++ ascii " NO LOGIN failed"))
    | some true =>
        .ok (Conn.sendLine { c with session := { c.session with authed := true, username := user } }
          (tag ++ ascii " OK LOGIN completed"))

def handleLogout (tag : Bytes) (c : Conn) : Conn :=
  ((c.sendLine (ascii "* BYE Logging out")).sendLine (tag ++ ascii " OK LOGOUT completed")).closeSocket

def handleCommand (line : Bytes) (c : Conn) : Ended :=
  let ⟨tag, cmd, args⟩ := splitImap line
  let ucmd := cmd.map Bytes.toUpper
  if ucmd = ascii "CAPABILITY" then .ok (handleCapability tag c)
  else if ucmd = ascii "STARTTLS" then handleStarttls tag c
  else if ucmd = ascii "LOGIN" then
    if c.session.tlsActive then handleLogin tag args c
    else .ok (c.sendLine (tag ++ ascii " BAD STARTTLS required first"))
  else if ucmd = ascii "LOGOUT" then .ok (handleLogout tag c)
  else .ok (c.sendLine (tag ++ ascii " BAD Unknown or unsupported command"))

/-- The connection after a sequence of command lines. -/
def commands : List Bytes → Conn → Conn
  | [], c => c
  | line :: rest, c => commands rest (handleCommand line c).conn

/-! ## The session loop -/

def greet (domain : Bytes) (c : Conn) : Conn :=
  if c.session.tlsActive then
    c.sendLine (ascii "* OK [CAPABILITY IMAP4rev1 AUTH=LOGIN] " ++ domain ++ ascii " IMAPS ready (TLS)")
  else
    c.sendLine (ascii "* OK [CAPABILITY IMAP4rev1 STARTTLS] " ++ domain ++
      ascii " IMAP4rev1 Service Ready")

/-- The loop. Every iteration takes input, so more fuel than input suffices. -/
def runLoop : Nat → Conn → Ended
  | 0, c => .ok c
  | fuel + 1, c =>
      let (line, rest) := readFrom [] c.env.input
      let c := { c with env := { c.env with input := rest } }
      match line with
      | none => .ok c
      | some [] => runLoop fuel c
      | some line =>
          match handleCommand line c with
          | .error c => .error c
          | .ok c => if c.session.sockOpen then runLoop fuel c else .ok c

/-- An exception leaves `run` without closing the socket. -/
def run (domain : Bytes) (c : Conn) : Ended :=
  (runLoop (c.env.input.length + 1) (greet domain c)).map fun c =>
    if c.session.sockOpen then c.closeSocket else c

end EmailServer.Imap
