import EmailServer.Core.AppLifecycle
import EmailServer.Library.Locking

/-! # The shutdown coordinator

Threads register hooks, initiate the shutdown and wait for it. Each access to the state
that they share is one operation. A callback returns or throws a `std::exception`, which
the loop around it catches; it does not call the coordinator. The server's log throws a
`std::exception` when it cannot be written, at a line of `throws` in any call of it.

The log of the model is made of registrations, callbacks, the beginnings of phases and the
drains that are passed over.
-/

namespace EmailServer.Core

/-- The three callbacks of a hook, and the phases that call them. -/
inductive ShutdownPhase where
  | stopAccepting
  | drain
  | shutdown
  deriving DecidableEq

/-- As the source numbers them. -/
def ShutdownPhase.number : ShutdownPhase → Nat
  | .stopAccepting => 1
  | .drain => 2
  | .shutdown => 3

/-- Of each `std::function` only whether it is set. -/
structure ShutdownHook where
  name : Bytes
  stopAccepting : Bool := false
  drain : Bool := false
  shutdown : Bool := false
  priority : Int := 0
  deriving DecidableEq

def ShutdownHook.has (hook : ShutdownHook) : ShutdownPhase → Bool
  | .stopAccepting => hook.stopAccepting
  | .drain => hook.drain
  | .shutdown => hook.shutdown

namespace ShutdownCoordinator

/-- The lines that `initiateShutdown` logs. -/
inductive LogLine where
  | initiating
  | phase (p : ShutdownPhase)
  /-- Before a callback, inside the `try`. -/
  | calling (p : ShutdownPhase) (hook : ShutdownHook)
  /-- In the handler. -/
  | error (p : ShutdownPhase) (hook : ShutdownHook)
  | drainTimeout (hook : ShutdownHook)
  | complete
  deriving DecidableEq

inductive Event where
  | registered (hook : ShutdownHook)
  | phase (p : ShutdownPhase)
  | called (p : ShutdownPhase) (hook : ShutdownHook) (threw : Bool)
  | timedOut (hook : ShutdownHook)
  deriving DecidableEq

/-- The number of the phase that an event belongs to. -/
def Event.block : Event → Nat
  | .registered _ => 0
  | .phase p => p.number
  | .called p _ _ => p.number
  | .timedOut _ => ShutdownPhase.drain.number

/-- An event, the thread it happened in, and when it did. -/
structure Entry (ι : Type) where
  thread : ι
  time : Int
  event : Event
  deriving DecidableEq

end ShutdownCoordinator

/-- The members of the class, the steady clock in nanoseconds, and what has happened. -/
structure ShutdownCoordinator (ι : Type) where
  hooks : List ShutdownHook := []
  shuttingDown : Bool := false
  /-- The thread that holds the mutex. -/
  mutex : Option ι := none
  shutdownComplete : Bool := false
  clock : Int
  log : List (ShutdownCoordinator.Entry ι) := []
  /-- The thread that set `shuttingDown`. -/
  first : Option ι := none
  /-- The threads that found `shuttingDown` set, each with the length of the log then. -/
  repeats : List (ι × Nat) := []

namespace ShutdownCoordinator

variable {ι : Type}

inductive Op where
  | lock
  | unlock
  /-- `push_back` and `std::sort`. -/
  | add (hook : ShutdownHook)
  | exchange
  | log (line : LogLine)
  /-- The range of a loop. -/
  | hooks
  | phase (p : ShutdownPhase)
  | now
  | call (p : ShutdownPhase) (hook : ShutdownHook)
  | timedOut (hook : ShutdownHook)
  | setComplete
  | isComplete

abbrev Res : Op → Type
  | .lock | .unlock | .add _ | .phase _ | .timedOut _ | .setComplete => Unit
  | .exchange | .isComplete => Bool
  | .hooks => List ShutdownHook
  | .now => Int
  -- whether the callback, or the log, threw
  | .call _ _ | .log _ => Bool

abbrev CoordProg := Prog Op Res

def note (s : ShutdownCoordinator ι) (i : ι) (event : Event) : ShutdownCoordinator ι :=
  { s with log := s.log ++ [⟨i, s.clock, event⟩] }

def added (sort : StdSort ShutdownHook) (s : ShutdownCoordinator ι) (hook : ShutdownHook) :
    ShutdownCoordinator ι :=
  { s with hooks := sort.sortBy (·.priority) (s.hooks ++ [hook]) }

/-- `shuttingDown_.exchange(true)`. -/
def exchanged (s : ShutdownCoordinator ι) (i : ι) : ShutdownCoordinator ι :=
  if s.shuttingDown then { s with repeats := (i, s.log.length) :: s.repeats }
  else { s with shuttingDown := true, first := some i }

def sem (sort : StdSort ShutdownHook) (throws : LogLine → Prop) (i : ι) :
    Sem Op Res (ShutdownCoordinator ι)
  | .lock, s, _, t => s.mutex = none ∧ t = { s with mutex := some i }
  | .unlock, s, _, t => t = { s with mutex := none }
  | .add hook, s, _, t => t = (s.added sort hook).note i (.registered hook)
  | .exchange, s, r, t => r = s.shuttingDown ∧ t = s.exchanged i
  | .log line, s, threw, t => (threw = true → throws line) ∧ t = s
  | .hooks, s, r, t => r = s.hooks ∧ t = s
  | .phase p, s, _, t => t = s.note i (.phase p)
  | .now, s, r, t => r = s.clock ∧ t = s
  | .call p hook, s, threw, t => t = s.note i (.called p hook threw)
  | .timedOut hook, s, _, t => t = s.note i (.timedOut hook)
  | .setComplete, s, _, t => t = { s with shutdownComplete := true }
  | .isComplete, s, r, t => r = s.shutdownComplete ∧ t = s

/-- Time passes. -/
def ticks (s t : ShutdownCoordinator ι) : Prop :=
  ∃ later, s.clock ≤ later ∧ t = { s with clock := later }

/-- What a call comes to. -/
inductive Returned where
  | registered
  /-- Whether it was the first call of `initiateShutdown`. -/
  | initiated (first : Bool)
  | waited (complete : Bool)
  | threw
  deriving DecidableEq

def registerHook (hook : ShutdownHook) : CoordProg Returned :=
  .step .lock fun _ => .step (.add hook) fun _ => .step .unlock fun _ => .pure .registered

/-- A part of `initiateShutdown` returns whether an exception leaves it. The `next` part
    runs if none does. -/
def andThen (part next : CoordProg Bool) : CoordProg Bool :=
  part.bind fun threw => if threw then .pure true else next

/-- A line that is logged outside of any `try`. -/
def logged (line : LogLine) (next : CoordProg Bool) : CoordProg Bool :=
  andThen (.step (.log line) .pure) next

/-- The handler of a `try` that threw. -/
def handler (p : ShutdownPhase) (hook : ShutdownHook) (threw : Bool) : CoordProg Bool :=
  if threw then .step (.log (.error p hook)) .pure else .pure false

/-- A `try`, whose body returns whether it throws. -/
def handled (p : ShutdownPhase) (hook : ShutdownHook) (body : CoordProg Bool) : CoordProg Bool :=
  body.bind (handler p hook)

/-- The loops of the phases 1 and 3. -/
def callLoop (p : ShutdownPhase) : List ShutdownHook → CoordProg Bool
  | [] => .pure false
  | hook :: rest =>
      if hook.has p then
        andThen (handled p hook (logged (.calling p hook) (.step (.call p hook) .pure)))
          (callLoop p rest)
      else callLoop p rest

/-- `std::chrono::seconds(10)`. -/
def drainTimeout : Int := 10 * 1000000000

/-- The loop of phase 2. -/
def drainLoop (drainStart : Int) : List ShutdownHook → CoordProg Bool
  | [] => .pure false
  | hook :: rest =>
      if hook.has .drain then
        andThen
          (handled .drain hook (logged (.calling .drain hook) (.step .now fun now =>
            let remaining := drainTimeout - (now - drainStart)
            if remaining > 0 then .step (.call .drain hook) .pure
            else .step (.timedOut hook) fun _ => .step (.log (.drainTimeout hook)) .pure)))
          (drainLoop drainStart rest)
      else drainLoop drainStart rest

def stopPhase : CoordProg Bool :=
  logged (.phase .stopAccepting) (.step (.phase .stopAccepting) fun _ =>
    .step .hooks fun hooks => callLoop .stopAccepting hooks)

def drainPhase : CoordProg Bool :=
  logged (.phase .drain) (.step (.phase .drain) fun _ => .step .now fun drainStart =>
    .step .hooks fun hooks => drainLoop drainStart hooks)

/-- From `rbegin` to `rend`. -/
def shutdownPhase : CoordProg Bool :=
  logged (.phase .shutdown) (.step (.phase .shutdown) fun _ =>
    .step .hooks fun hooks => callLoop .shutdown hooks.reverse)

/-- The end of a call, which gives back the mutex. -/
def leave (result : Returned) : CoordProg Returned := .step .unlock fun _ => .pure result

/-- What the first call does after it has set the flag. -/
def shutdownRest : CoordProg Returned :=
  .step (.log .initiating) fun threw =>
    if threw then .pure .threw
    else
      .step .lock fun _ => (andThen stopPhase (andThen drainPhase shutdownPhase)).bind fun threw =>
        if threw then leave .threw
        else .step .setComplete fun _ => .step (.log .complete) fun threw =>
          leave (if threw then .threw else .initiated true)

def initiateShutdown : CoordProg Returned :=
  .step .exchange fun already => if already then .pure (.initiated false) else shutdownRest

/-- The predicate is looked at under the lock. The thread wakes `wakes` times, the last
    time because the time is over. -/
def waitForShutdown : Nat → CoordProg Returned
  | 0 => .step .lock fun _ => .step .isComplete fun complete =>
      .step .unlock fun _ => .pure (.waited complete)
  | wakes + 1 => .step .lock fun _ => .step .isComplete fun complete =>
      .step .unlock fun _ =>
        if complete then .pure (.waited true) else waitForShutdown wakes

inductive Call : CoordProg Returned → Prop
  | registerHook (hook : ShutdownHook) : Call (registerHook hook)
  | initiateShutdown : Call initiateShutdown
  | waitForShutdown (wakes : Nat) : Call (waitForShutdown (wakes + 1))

end ShutdownCoordinator

end EmailServer.Core
