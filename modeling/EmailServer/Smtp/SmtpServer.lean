import Mathlib.Logic.Relation
import EmailServer.Core.ConnectionManager
import EmailServer.Library.Ledger
import EmailServer.Smtp.Session

/-! # The accept loop and its session threads

`SmtpServer::run` takes a connection slot in the accept loop and hands the
connection to a thread of its own, which gives the slot back. The loop and the
threads are programs that run interleaved. What the circuit breaker, the rate
limiter, the handshake and the session answer is open.

Sockets, logs and metrics are left out. The tally of a connection is a record of
what was done for it that no code reads.
-/

namespace EmailServer.Smtp

open EmailServer.Core

/-- There is no SSL object, or `SSL_accept` has not succeeded. -/
def Handshake.failed : Handshake → Bool
  | .noSsl | .notAccepted => true
  | .accepted _ _ | .threw => false

inductive ServerOp where
  | conn (op : ConnOp)
  /-- `resetCircuitBreakerIfExpired` and `isCircuitBreakerTripped`. -/
  | circuitBreaker
  /-- Accept a connection and look up its address. -/
  | accept
  | allowConnection (ip : Bytes)
  | closeSocket
  /-- Start the thread of the connection. -/
  | spawn (ip : Bytes)
  /-- Erase the threads that are not joinable; the answer is how many are left. -/
  | reapSessions
  | backpressure
  | pushSession
  /-- `createSSL` and `SSL_accept`. -/
  | handshake
  /-- `SmtpSession::run`; false when it throws. -/
  | runSession
  | recordSessionFailure
  deriving DecidableEq

@[reducible] def ServerOp.Res : ServerOp → Type
  | .conn op => op.Res
  | .circuitBreaker | .allowConnection _ | .runSession => Bool
  | .accept => Option Bytes
  | .reapSessions => Nat
  | .handshake => Handshake
  | .closeSocket | .spawn _ | .backpressure | .pushSession | .recordSessionFailure => Unit

abbrev ServerProg := Prog ServerOp ServerOp.Res

/-- What the threads share. `sessions` says of each thread in `sessions_` whether
    it is joinable. -/
structure Shared where
  manager : ConnectionManager
  sessions : List Bool

/-- An operation on what the threads share. -/
def ServerOp.Effect : Sem ServerOp ServerOp.Res Shared
  | .conn op, s, r, t => op.Effect s.manager r t.manager ∧ t.sessions = s.sessions
  | .reapSessions, s, n, t =>
      t = { s with sessions := s.sessions.filter id } ∧ n = t.sessions.length
  | .pushSession, s, _, t => t = { s with sessions := s.sessions ++ [true] }
  | _, s, _, t => t = s

/-! ## Programs -/

def conn {α : Type} (p : ConnProg α) : ServerProg α := p.embed .conn fun _ r => r

/-- One turn of the loop in `run`. `checkResourceLimits` always returns true. -/
def acceptTurn : ServerProg Unit :=
  .step .circuitBreaker fun tripped =>
    if tripped then .pure ()
    else
      .step (.conn .loadActive) fun currentConnections =>
        .step (.conn .loadGlobalMax) fun maxConnections =>
          if currentConnections ≥ maxConnections then .pure ()
          else
            .step .accept fun
              | none => .pure ()
              | some ip =>
                  (conn (ConnectionManager.tryAcquireConnection ip)).bind fun acquired =>
                    if !acquired then .step .closeSocket fun _ => .pure ()
                    else
                      .step (.allowConnection ip) fun allowed =>
                        if !allowed then
                          (conn (ConnectionManager.releaseConnection ip)).bind fun _ =>
                            .step .closeSocket fun _ => .pure ()
                        else
                          .step (.spawn ip) fun _ =>
                            .step .reapSessions fun size =>
                              if size > 1000 then
                                .step .backpressure fun _ => .step .pushSession fun _ => .pure ()
                              else .step .pushSession fun _ => .pure ()

/-- The end of a session thread that has not returned early. -/
def endSession (ip : Bytes) (sessionFailed : Bool) : ServerProg Unit :=
  if sessionFailed then
    .step .recordSessionFailure fun _ => conn (ConnectionManager.releaseConnection ip)
  else conn (ConnectionManager.releaseConnection ip)

/-- The thread of a connection. -/
def sessionThread (port : Nat) (ip : Bytes) : ServerProg Unit :=
  if port = 465 then
    .step .handshake fun
      | .accepted _ _ => .step .runSession fun ended => endSession ip (!ended)
      | .noSsl | .notAccepted => .step .closeSocket fun _ => .pure ()
      | .threw => endSession ip true
  else .step .runSession fun ended => endSession ip (!ended)

/-! ## Runs -/

/-- What has been done for a connection with a slot: how often the total was
    incremented less how often it was decremented, the addresses it was released
    for, and whether its handshake has failed. -/
structure Tally where
  ip : Bytes
  slots : Int
  released : List Bytes
  refused : Bool

/-- A connection whose slot has not been taken from the total yet. -/
def Tally.entered (ip : Bytes) : Tally := ⟨ip, 0, [], false⟩

def Tally.book (tally : Tally) : (op : ServerOp) → op.Res → Tally
  | .conn .increment, _ => { tally with slots := tally.slots + 1 }
  | .conn .decrement, _ => { tally with slots := tally.slots - 1 }
  | .conn (.leaveIP ip), _ => { tally with released := tally.released ++ [ip] }
  | .handshake, answer => { tally with refused := tally.refused || answer.failed }
  | _, _ => tally

/-- A connection that the loop has handed on, with what is left of its thread. The
    loop closes a refused connection, for which there is nothing left to do. -/
structure Connection where
  tally : Tally
  rest : ServerProg Unit

def Connection.Ended (c : Connection) : Prop := c.rest = .pure ()

structure SmtpServer where
  shared : Shared
  loop : ServerProg Unit
  /-- The connection the loop has acquired and neither handed on nor closed. -/
  held : Option Tally
  connections : List Connection

namespace SmtpServer

/-- Before the first turn of the loop. -/
def start (globalMax perIPMax : Int) : SmtpServer :=
  ⟨⟨.initial globalMax perIPMax, []⟩, .pure (), none, []⟩

/-- What the loop holds after an operation of its own. -/
def holds (held : Option Tally) : (op : ServerOp) → op.Res → Option Tally
  | .conn (.enterIP ip), true => some (.entered ip)
  | .spawn _, _ | .closeSocket, _ => none
  | op, r => held.map fun tally => tally.book op r

/-- What the loop hands on by an operation, with the thread that goes on with it. -/
def handsOn (port : Nat) (held : Option Tally) (op : ServerOp) : List Connection :=
  match op with
  | .spawn ip => held.toList.map fun tally => ⟨tally, sessionThread port ip⟩
  | .closeSocket => held.toList.map fun tally => ⟨tally, .pure ()⟩
  | _ => []

/-- Any thread may do its next operation, and the loop may take another turn. The
    limits may be set at any time. -/
inductive Step (port : Nat) : SmtpServer → SmtpServer → Prop
  | turn {s : SmtpServer} : s.loop = .pure () → Step port s { s with loop := acceptTurn }
  | loop {s : SmtpServer} {op next r t} : s.loop = .step op next → op.Effect s.shared r t →
      Step port s
        { shared := t
          loop := next r
          held := holds s.held op r
          connections := s.connections ++ handsOn port s.held op }
  | session {s : SmtpServer} {before after tally op next r t} :
      s.connections = before ++ ⟨tally, .step op next⟩ :: after → op.Effect s.shared r t →
      Step port s
        { s with
          shared := t
          connections := before ++ ⟨tally.book op r, next r⟩ :: after }
  | configure {s : SmtpServer} (globalMax perIPMax : Int) :
      Step port s
        { s with
          shared.manager.globalMax := globalMax
          shared.manager.perIPMax := perIPMax }

/-- The loop has stopped and all session threads have ended. -/
def Stopped (s : SmtpServer) : Prop := s.loop = .pure () ∧ ∀ c ∈ s.connections, c.Ended

/-- Every connection that has ended was released once, for its own address, and
    no connection is counted when all have ended. -/
def Conserves (s : SmtpServer) : Prop :=
  (∀ c ∈ s.connections, c.Ended → c.tally.released = [c.tally.ip]) ∧
    (s.Stopped → s.shared.manager.activeConnections = 0)

end SmtpServer

end EmailServer.Smtp
