import EmailServer.Core.RateLimiter

/-! # The IMAP accept loop and its session threads

`ImapServer::run` asks the rate limiter for every connection whose address it can
tell, and hands the connection to a thread of its own, which gives the connection
back to the limiter when the session is over. The loop and the threads are programs
that run interleaved. What the clients and the sessions do is open.

Sockets, logs, metrics and the list of threads, which only `stop` reads, are left out.
-/

namespace EmailServer.Imap

open EmailServer.Core

inductive ImapOp where
  /-- `activeConnections.load()` -/
  | loadActive
  /-- Accept a connection, and look up its address. -/
  | accept
  | allowConnection (ip : Bytes)
  | closeSocket
  /-- Start the thread of the connection. -/
  | spawn (ip : Bytes)
  | increment
  | decrement
  /-- `createSSL` and `SSL_accept`; whether they succeed. -/
  | handshake
  /-- `ImapSession::run` -/
  | runSession
  | releaseConnection (ip : Bytes)
  deriving DecidableEq

@[reducible] def ImapOp.Res : ImapOp → Type
  | .loadActive => Int
  | .accept => Option (Option Bytes)
  | .allowConnection _ | .handshake => Bool
  | .closeSocket | .spawn _ | .increment | .decrement | .runSession | .releaseConnection _ => Unit

abbrev ImapProg := Prog ImapOp ImapOp.Res

/-- What the threads share. -/
structure Shared where
  limiter : RateLimiter
  activeConnections : Int

/-- An operation when the clock shows `now`. -/
def ImapOp.EffectAt (now : Int) : Sem ImapOp ImapOp.Res Shared
  | .loadActive, s, n, t => n = s.activeConnections ∧ t = s
  | .allowConnection ip, s, allowed, t =>
      (allowed, t.limiter) = s.limiter.allowConnection now ip ∧
        t.activeConnections = s.activeConnections
  | .increment, s, _, t => t = { s with activeConnections := s.activeConnections + 1 }
  | .decrement, s, _, t => t = { s with activeConnections := s.activeConnections - 1 }
  | .releaseConnection ip, s, _, t => t = { s with limiter := s.limiter.releaseConnection ip }
  | _, s, _, t => t = s

/-! ## Programs -/

/-- One turn of the loop in `run`. -/
def acceptTurn (globalMaxConnections : Int) : ImapProg Unit :=
  .step .loadActive fun active =>
    if active ≥ globalMaxConnections then .pure ()
    else
      .step .accept fun
        | none => .pure ()
        | some none => .step (.spawn (ascii "unknown")) fun _ => .pure ()
        | some (some ip) =>
            .step (.allowConnection ip) fun allowed =>
              if !allowed then .step .closeSocket fun _ => .pure ()
              else .step (.spawn ip) fun _ => .pure ()

/-- The end of a session thread. -/
def endSession (ip : Bytes) : ImapProg Unit :=
  .step .closeSocket fun _ =>
    .step .decrement fun _ => .step (.releaseConnection ip) fun _ => .pure ()

/-- The thread of a connection. -/
def sessionThread (port : Nat) (ip : Bytes) : ImapProg Unit :=
  .step .increment fun _ =>
    if port = 993 then
      .step .handshake fun established =>
        if !established then endSession ip else .step .runSession fun _ => endSession ip
    else .step .runSession fun _ => endSession ip

/-! ## Runs -/

structure ImapServer where
  shared : Shared
  clock : Int
  loop : ImapProg Unit
  sessions : List (ImapProg Unit)

/-- What happens in a step: the loop takes another turn, or an operation is done. -/
inductive ImapLabel where
  | turn
  | operation (now : Int) (op : ImapOp)
  deriving DecidableEq

namespace ImapServer

/-- Before the first turn of the loop, with whatever the limiter has counted so far. -/
def start (limiter : RateLimiter) (clock : Int) : ImapServer := ⟨⟨limiter, 0⟩, clock, .pure (), []⟩

/-- The thread that the loop starts by an operation. -/
def started (port : Nat) : ImapOp → List (ImapProg Unit)
  | .spawn ip => [sessionThread port ip]
  | _ => []

/-- Any thread may do its next operation, and the loop may take another turn. Time
    does not go back. -/
inductive Step (port : Nat) (globalMaxConnections : Int) :
    ImapServer → ImapLabel → ImapServer → Prop
  | turn {s : ImapServer} : s.loop = .pure () →
      Step port globalMaxConnections s .turn { s with loop := acceptTurn globalMaxConnections }
  | loop {s : ImapServer} {now op next r t} : s.clock ≤ now → s.loop = .step op next →
      op.EffectAt now s.shared r t →
      Step port globalMaxConnections s (.operation now op)
        ⟨t, now, next r, s.sessions ++ started port op⟩
  | session {s : ImapServer} {now before after op next r t} : s.clock ≤ now →
      s.sessions = before ++ .step op next :: after → op.EffectAt now s.shared r t →
      Step port globalMaxConnections s (.operation now op)
        ⟨t, now, s.loop, before ++ next r :: after⟩

end ImapServer

end EmailServer.Imap
