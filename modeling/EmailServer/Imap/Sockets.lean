import EmailServer.Imap.ImapServer
import EmailServer.Imap.SessionRun
import EmailServer.Library.Handles
import EmailServer.Library.Trace

/-! # Who closes whose socket

The accept loop and its session threads again, now with the sockets. The operating
system gives a connection any handle that is closed. A session closes its socket before
`run` returns, and its thread closes the same handle once more.

A socket handle fits in the `int` that a session keeps it in. An exception that leaves
a session ends the process: the thread goes no further, and a run may end anywhere.
-/

namespace EmailServer.Imap

open EmailServer.Core

variable {Handle : Type}

/-- A session thread with its connection: where `ImapSession::run` is since it was
    called, and what the thread has still to do. -/
structure SessionThread (Handle : Type) where
  client : Held Handle
  run : Option SessionRun
  rest : ImapProg Unit

structure ImapSockets (Handle : Type) where
  shared : Shared
  clock : Int
  loop : ImapProg Unit
  /-- The connection that the loop has accepted, until it closes it or starts its thread. -/
  client : Option (Held Handle)
  threads : List (SessionThread Handle)
  /-- The open sockets, and the connections they belong to. -/
  table : HandleTable Handle

/-- What happens in a step. The label shows a thread as it was before. -/
inductive SocketLabel (Handle : Type) where
  | turn
  | loop (now : Int) (op : ImapOp)
  | thread (now : Int) (thread : SessionThread Handle) (op : ImapOp)
  /-- The thread calls `ImapSession::run`. -/
  | begins (thread : SessionThread Handle)
  /-- A turn of the session. -/
  | session (thread : SessionThread Handle)
  /-- `ImapSession::run` has returned. -/
  | returned (now : Int) (thread : SessionThread Handle)

/-- What an operation of the loop does with the connection it has accepted, and with
    the sockets. -/
def ImapOp.Sockets [DecidableEq Handle] : (op : ImapOp) → op.Res →
    Option (Held Handle) × HandleTable Handle → Option (Held Handle) × HandleTable Handle → Prop
  | .accept, some _, before, after => ∃ handle, before.2.owner handle = none ∧
      after = (some ⟨before.2.given, handle⟩, before.2.give handle)
  | .closeSocket, _, before, after => ∃ client, before.1 = some client ∧
      after = (none, before.2.close client.handle)
  | .spawn _, _, before, after => before.1.isSome ∧ after = (none, before.2)
  | _, _, before, after => after = before

namespace ImapSockets

def start (limiter : RateLimiter) (clock : Int) : ImapSockets Handle :=
  ⟨⟨limiter, 0⟩, clock, .pure (), none, [], .empty⟩

/-- The thread that the loop starts by an operation. -/
def started (port : Nat) : ImapOp → Option (Held Handle) → List (SessionThread Handle)
  | .spawn ip, some client => [⟨client, none, sessionThread port ip⟩]
  | _, _ => []

/-- The loop and the threads step as they do without the sockets. A session thread goes
    on by itself from one turn of its session to the next, and may meet any client. -/
inductive Step [DecidableEq Handle] (port : Nat) (globalMaxConnections : Int) (domain : Bytes) :
    ImapSockets Handle → SocketLabel Handle → ImapSockets Handle → Prop
  | turn {s : ImapSockets Handle} : s.loop = .pure () →
      Step port globalMaxConnections domain s .turn
        { s with loop := acceptTurn globalMaxConnections }
  | loop {s : ImapSockets Handle} {now op next r t client table} : s.clock ≤ now →
      s.loop = .step op next → op.EffectAt now s.shared r t →
      op.Sockets r (s.client, s.table) (client, table) →
      Step port globalMaxConnections domain s (.loop now op)
        ⟨t, now, next r, client, s.threads ++ started port op s.client, table⟩
  | thread {s : ImapSockets Handle} {now before th after op next r t} : s.clock ≤ now →
      s.threads = before ++ th :: after → th.rest = .step op next → op ≠ .runSession →
      op.EffectAt now s.shared r t →
      Step port globalMaxConnections domain s (.thread now th op)
        ⟨t, now, s.loop, s.client, before ++ ⟨th.client, th.run, next r⟩ :: after,
          if op = .closeSocket then s.table.close th.client.handle else s.table⟩
  | begins {s : ImapSockets Handle} {before th after next ssl env} :
      s.threads = before ++ th :: after → th.rest = .step .runSession next → th.run = none →
      ssl.isSome = decide (port = 993) →
      Step port globalMaxConnections domain s (.begins th)
        { s with threads := before ++ ⟨th.client, some (.start domain ssl env), th.rest⟩ :: after }
  | session {s : ImapSockets Handle} {before th after next run} :
      s.threads = before ++ th :: after → th.rest = .step .runSession next → th.run = some run →
      Step port globalMaxConnections domain s (.session th)
        { s with
          threads := before ++ ⟨th.client, some run.next, th.rest⟩ :: after
          table := if run.closing then s.table.close th.client.handle else s.table }
  | returned {s : ImapSockets Handle} {now before th after next c} : s.clock ≤ now →
      s.threads = before ++ th :: after → th.rest = .step .runSession next →
      th.run = some (.returned c) →
      Step port globalMaxConnections domain s (.returned now th)
        { s with clock := now, threads := before ++ ⟨th.client, th.run, next ()⟩ :: after }

/-- The servers without the sockets. -/
def server (s : ImapSockets Handle) : ImapServer :=
  ⟨s.shared, s.clock, s.loop, s.threads.map SessionThread.rest⟩

theorem server_sessions {s : ImapSockets Handle} {before after : List (SessionThread Handle)}
    {th : SessionThread Handle} {p : ImapProg Unit} (threads : s.threads = before ++ th :: after)
    (at_ : th.rest = p) :
    s.server.sessions = before.map SessionThread.rest ++ p :: after.map SessionThread.rest := by
  simp [server, threads, at_]

end ImapSockets

/-- A step without the sockets. -/
def SocketLabel.server : SocketLabel Handle → Option ImapLabel
  | .turn => some .turn
  | .loop now op | .thread now _ op => some (.operation now op)
  | .returned now _ => some (.operation now .runSession)
  | .begins _ | .session _ => none

/-- A step with the servers around it. -/
abbrev SocketStep (Handle : Type) := Taken (SocketLabel Handle) (ImapSockets Handle)

namespace SocketStep

/-- The connection whose handle the step closes. -/
def closes (x : SocketStep Handle) : Option (Held Handle) :=
  match x.label with
  | .loop _ .closeSocket => x.before.client
  | .thread _ th .closeSocket => some th.client
  | .session th => if th.run.any SessionRun.closing then some th.client else none
  | _ => none

/-- The step is one of a session thread. -/
def ofThread (x : SocketStep Handle) : Bool :=
  match x.label with
  | .turn | .loop .. => false
  | _ => true

/-- A session thread closes the handle of its connection while that is open, and no one
    closes the handle of another connection. -/
structure ClosesOwn (x : SocketStep Handle) : Prop where
  own : ∀ c, x.closes = some c → x.ofThread = true → x.before.table.owner c.handle = some c.holder
  unshared : ∀ c other, x.closes = some c → x.before.table.owner c.handle = some other →
    other = c.holder

/-- The thread closes its handle behind the return of `ImapSession::run`. -/
def closesAgain (x : SocketStep Handle) : Bool :=
  match x.label with
  | .thread _ th .closeSocket => th.run.isSome
  | _ => false

end SocketStep

section Server

variable [DecidableEq Handle] {port : Nat} {globalMaxConnections : Int} {domain : Bytes}
  {s t : ImapSockets Handle} {l : SocketLabel Handle}

theorem started_server {op : ImapOp} {client : Option (Held Handle)} {r : op.Res}
    {table : HandleTable Handle} {after : Option (Held Handle) × HandleTable Handle}
    (does : op.Sockets r (client, table) after) :
    (ImapSockets.started port op client).map SessionThread.rest = ImapServer.started port op := by
  cases op with
  | spawn ip =>
      obtain ⟨c, rfl⟩ := Option.isSome_iff_exists.mp does.1
      rfl
  | _ => rfl

theorem server_rests (step : ImapSockets.Step port globalMaxConnections domain s l t)
    (inside : l.server = none) : t.server = s.server := by
  cases step with
  | turn | loop | thread | returned => cases inside
  | begins threads at_ | session threads at_ => simp [ImapSockets.server, threads, at_]

theorem server_moves (step : ImapSockets.Step port globalMaxConnections domain s l t) {l' : ImapLabel}
    (outside : l.server = some l') :
    ImapServer.Step port globalMaxConnections s.server l' t.server := by
  cases step with
  | turn idle =>
      cases outside
      exact .turn idle
  | loop later next effect does =>
      cases outside
      have step := @ImapServer.Step.loop port globalMaxConnections s.server _ _ _ _ _ later next effect
      simpa [ImapSockets.server, started_server does] using step
  | thread later threads at_ _ effect =>
      cases outside
      have step := @ImapServer.Step.session port globalMaxConnections s.server _ _ _ _ _ _ _
        later (ImapSockets.server_sessions threads at_) effect
      simpa [ImapSockets.server] using step
  | begins | session => cases outside
  | returned later threads at_ =>
      cases outside
      have step := @ImapServer.Step.session port globalMaxConnections s.server _ _ _ _ _ () _
        later (ImapSockets.server_sessions threads at_) rfl
      simpa [ImapSockets.server] using step

theorem sockets_server {limiter : RateLimiter} {clock : Int} {past : List (SocketStep Handle)}
    (trace : Trace (ImapSockets.Step port globalMaxConnections domain) (.start limiter clock) past s) :
    Trace (ImapServer.Step port globalMaxConnections) (.start limiter clock)
      (past.filterMap fun x => x.label.server.map fun l => ⟨l, x.before.server, x.after.server⟩)
      s.server :=
  trace.project (fun _ _ _ step => server_rests step) fun _ _ _ _ step => server_moves step

end Server

end EmailServer.Imap
