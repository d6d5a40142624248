import EmailServer.Queue.RetryWorker

/-! # The outgoing SMTP client

`SmtpDeliveryClient::deliver` speaks to one mail server over a blocking socket
and looks only at the first byte of each reply. What the network answers is a
parameter. The receive buffer, which is not cleared between replies, is part of
the client's state, as is everything it sends. The logger may throw.
-/

namespace EmailServer.Delivery

open Queue (DeliveryResult)

def crlf : Bytes := [Bytes.cr, Bytes.lf]

/-- The byte of a character constant. -/
def code (c : Char) : UInt8 := c.toNat.toUInt8

/-- `sizeof(buffer)` -/
def bufferSize : Nat := 512

/-- What one `recv` into the buffer gives: an error, or some bytes. No bytes
    means that the peer has closed the connection. -/
inductive Received where
  | failed
  | bytes (data : Bytes) (fits : data.length ≤ bufferSize - 1)

/-- What the calls on one connection give, and what the language leaves open:
    the buffer before the first read and the text of `std::length_error`. Where the
    log call after a delivery throws, `logThrows` is the text of the exception. -/
structure Network where
  resolves : Bool
  opens : Bool
  connects : Bool
  recvs : Nat → Received
  uninitialized : Bytes
  lengthError : Bytes
  logThrows : Option Bytes := none

/-- The connection: the buffer, the last `n`, how many reads there were, and
    the data of the `send` calls. -/
structure Client where
  buffer : Bytes
  n : Int
  reads : Nat
  sent : List Bytes

namespace Client

/-- `n = recv(sock, buffer, sizeof(buffer) - 1, 0)` -/
def recv (net : Network) (c : Client) : Client :=
  match net.recvs c.reads with
  | .failed => { c with n := -1, reads := c.reads + 1 }
  | .bytes data _ =>
      { c with
        buffer := data ++ c.buffer.drop data.length
        n := data.length
        reads := c.reads + 1 }

/-- `send`, whose result is not looked at. -/
def send (data : Bytes) (c : Client) : Client := { c with sent := c.sent ++ [data] }

/-- `buffer[n] = '\0'` -/
def terminate (c : Client) : Client := { c with buffer := c.buffer.set c.n.toNat 0 }

/-- `buffer[0]` -/
def first (c : Client) : UInt8 := c.buffer.headD 0

/-- `n <= 0 || buffer[0] != expected` -/
def unexpected (expected : UInt8) (c : Client) : Bool :=
  decide (c.n ≤ 0) || c.first != expected

/-- `std::string(buffer, n)`, which throws when `n` is negative. -/
def reply (net : Network) (c : Client) : Except Bytes Bytes :=
  if c.n < 0 then .error net.lengthError else .ok (c.buffer.take c.n.toNat)

/-- Send a command and read the reply. -/
def ask (net : Network) (command : Bytes) (c : Client) : Client := (c.send command).recv net

end Client

/-- A failure that leaves `permanentFailure` unset. -/
def temporary (errorMessage : Bytes) (retryAfterSeconds : Nat) : DeliveryResult where
  success := false
  permanentFailure := false
  errorMessage := errorMessage
  retryAfterSeconds := retryAfterSeconds

/-- A refused command is a permanent failure when the buffer starts with a 5.
    The error text is built first. -/
def rejected (net : Network) (text : Bytes) (c : Client) : Except Bytes DeliveryResult :=
  (c.reply net).map fun reply =>
    let permanentFailure := c.first == code '5'
    { success := false
      permanentFailure := permanentFailure
      errorMessage := text ++ reply
      retryAfterSeconds := if permanentFailure then 0 else 300 }

/-- The log call after a delivery is inside the `try` as well, but `success` is set by then. -/
def delivered (net : Network) : DeliveryResult :=
  match net.logThrows with
  | none => ⟨true, false, [], 0⟩
  | some what => ⟨true, false, ascii "Exception during delivery: " ++ what, 300⟩

/-- The conversation on a connected socket; an error is an exception. -/
def converse (net : Network) (sender recipient raw : Bytes) (c : Client) :
    Except Bytes DeliveryResult × Client :=
  let c := c.recv net
  if c.n ≤ 0 then (.ok (temporary (ascii "Failed to read SMTP greeting") 60), c) else
  let c := c.terminate
  let c := c.ask net (ascii "EHLO " ++ ascii "mailserver.local" ++ crlf)
  if c.unexpected (code '2') then (.ok (temporary (ascii "EHLO failed") 60), c) else
  let c := c.ask net (ascii "MAIL FROM:<" ++ sender ++ ascii ">" ++ crlf)
  if c.unexpected (code '2') then (rejected net (ascii "MAIL FROM rejected: ") c, c) else
  let c := c.ask net (ascii "RCPT TO:<" ++ recipient ++ ascii ">" ++ crlf)
  if c.unexpected (code '2') then (rejected net (ascii "RCPT TO rejected: ") c, c) else
  let c := c.ask net (ascii "DATA" ++ crlf)
  if c.unexpected (code '3') then (.ok (temporary (ascii "DATA command failed") 60), c) else
  let c := c.send raw
  let c := c.ask net (crlf ++ ascii "." ++ crlf)
  if c.unexpected (code '2') then (rejected net (ascii "Message rejected: ") c, c) else
  let c := c.ask net (ascii "QUIT" ++ crlf)
  (.ok (delivered net), c)

/-- The catch-all around the conversation. -/
def caught : Except Bytes DeliveryResult → DeliveryResult
  | .ok result => result
  | .error what => temporary (ascii "Exception during delivery: " ++ what) 300

def connectAndDeliver (net : Network) (mxHost sender recipient raw : Bytes) :
    DeliveryResult × List Bytes :=
  if !net.resolves then (temporary (ascii "DNS resolution failed for " ++ mxHost) 300, [])
  else if !net.opens then (temporary (ascii "Failed to create socket") 60, [])
  else if !net.connects then (temporary (ascii "Connection failed to " ++ mxHost) 300, [])
  else
    let ended := converse net sender recipient raw ⟨net.uninitialized, 0, 0, []⟩
    (caught ended.1, ended.2.sent)

/-- Whether the log calls of a lookup return: the one before it, and that of its `catch`. -/
structure LookupLogs where
  lookingUp : Bool := true
  lookupFailed : Bool := true

/-- The lookup is a placeholder: the domain is its own mail server. All that can throw in its
    `try` is the log call, and then no host is found. -/
def lookupMX (logs : LookupLogs) (domain : Bytes) : Except Exn (List Bytes) :=
  if logs.lookingUp then .ok [domain]
  else if logs.lookupFailed then .ok []
  else .error .filesystemError

def DEFAULT_SMTP_PORT : Nat := 25

/-- Try the hosts in turn until one takes the message or refuses it for good. -/
def tryHosts (connections : Bytes → Nat → Network) (domain sender recipient raw : Bytes) :
    List Bytes → DeliveryResult
  | [] => temporary (ascii "All MX hosts failed for " ++ domain) 300
  | mxHost :: others =>
      let result :=
        (connectAndDeliver (connections mxHost DEFAULT_SMTP_PORT) mxHost sender recipient raw).1
      if result.success then result
      else if result.permanentFailure then result
      else tryHosts connections domain sender recipient raw others

/-- A failure without retry, as `deliver` reports it before it connects. -/
def undeliverable (errorMessage : Bytes) : DeliveryResult where
  success := false
  permanentFailure := true
  errorMessage := errorMessage
  retryAfterSeconds := 0

/-- What follows the first `@`. -/
def domainOf (recipient : Bytes) : Bytes := (recipient.dropWhile (· != code '@')).drop 1

/-- `connections` is what connecting to a host and port comes to. -/
def deliver (connections : Bytes → Nat → Network) (logs : LookupLogs) : Queue.Deliver :=
  fun sender recipient raw =>
    if code '@' ∉ recipient then
      .ok (undeliverable (ascii "Invalid recipient address: " ++ recipient))
    else
      let domain := domainOf recipient
      match lookupMX logs domain with
      | .error e => .error e
      | .ok mxHosts =>
        if mxHosts = [] then .ok (undeliverable (ascii "No MX records found for " ++ domain))
        else .ok (tryHosts connections domain sender recipient raw mxHosts)

end EmailServer.Delivery
