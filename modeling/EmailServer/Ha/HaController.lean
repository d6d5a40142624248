import Mathlib.Logic.Function.Basic
import EmailServer.Library.Trace

/-! # The high-availability controllers

Each node has an `HaController`, whose calls `start` and `stop` come one after another,
and the thread that `start` creates. Both have their place in the source; a step is what
is done between two places. The nodes share the lock file and nothing else.

Logs and the work of `RetryWorker::runOnce` are left out, and with it the time that it
and the sleeping take. A log that throws ends the process, as a crash does.
-/

namespace EmailServer.Ha

/-- Where the thread of `run` is. -/
inductive LoopPhase where
  | absent
  /-- Before `while (running_)`. -/
  | test
  /-- Before `tryBecomeLeader`. -/
  | elect
  /-- The lock is taken, and the flag of the election not set yet. -/
  | acquired
  /-- `tryBecomeLeader` has returned true. -/
  | lead
  /-- Inside `RetryWorker::runOnce`. -/
  | work
  /-- `tryBecomeLeader` has returned false. -/
  | follow
  | sleep
  /-- `run` has returned. -/
  | finished
  deriving DecidableEq

/-- Where the calls of the owner are. -/
inductive ControlPhase where
  | idle
  /-- In `start`, before the thread is created. -/
  | starting
  /-- In `stop`, before `join`. -/
  | joining
  /-- In `stop`, before `releaseLeadership`. -/
  | closing
  /-- In `releaseLeadership`, with the handle closed. -/
  | unflagging
  deriving DecidableEq

structure Node where
  alive : Bool := true
  /-- `HaController::running_` -/
  running : Bool := false
  /-- `HaController::leader_` -/
  leader : Bool := false
  /-- `LeaderElection::leader_` -/
  election : Bool := false
  /-- The node has an open handle with the lock. -/
  handle : Bool := false
  loop : LoopPhase := .absent
  control : ControlPhase := .idle
  deriving DecidableEq

namespace Node

def isLeader (n : Node) : Bool := n.alive && n.leader

/-- The node is inside `RetryWorker::runOnce`. -/
def Working (n : Node) : Prop := n.alive = true ∧ n.loop = .work

end Node

inductive HaAction where
  | start
  | launch
  | stop
  | join
  | release
  | unflag
  | test
  | elect
  | flag
  | lead
  | work
  | follow
  | sleep
  | crash
  deriving DecidableEq

/-- The steps of a node, when the lock is free or not. -/
inductive Node.Step (free : Prop) : Node → HaAction → Node → Prop
  | start {n : Node} : n.control = .idle → n.running = false →
      Node.Step free n .start { n with running := true, control := .starting }
  | startAgain {n : Node} : n.control = .idle → n.running = true → Node.Step free n .start n
  | launch {n : Node} : n.control = .starting →
      Node.Step free n .launch { n with loop := .test, control := .idle }
  /-- `std::thread` throws. -/
  | launchFails {n : Node} : n.control = .starting →
      Node.Step free n .launch { n with control := .idle }
  | stop {n : Node} : n.control = .idle → n.running = true →
      Node.Step free n .stop { n with running := false, control := .joining }
  | stopAgain {n : Node} : n.control = .idle → n.running = false → Node.Step free n .stop n
  | join {n : Node} : n.control = .joining → n.loop = .finished ∨ n.loop = .absent →
      Node.Step free n .join { n with loop := .absent, control := .closing }
  | release {n : Node} : n.control = .closing → n.election = true →
      Node.Step free n .release { n with handle := false, control := .unflagging }
  /-- There is nothing to release. -/
  | unflagNone {n : Node} : n.control = .closing → n.election = false →
      Node.Step free n .unflag { n with control := .idle }
  | unflag {n : Node} : n.control = .unflagging →
      Node.Step free n .unflag { n with election := false, control := .idle }
  | test {n : Node} : n.loop = .test →
      Node.Step free n .test { n with loop := if n.running then .elect else .finished }
  /-- The election has been won before. -/
  | electCached {n : Node} : n.loop = .elect → n.election = true →
      Node.Step free n .elect { n with loop := .lead }
  | elect {n : Node} : n.loop = .elect → n.election = false → free →
      Node.Step free n .elect { n with handle := true, loop := .acquired }
  /-- Another handle has the lock, or the file cannot be opened. -/
  | electFails {n : Node} : n.loop = .elect → n.election = false →
      Node.Step free n .elect { n with loop := .follow }
  | flag {n : Node} : n.loop = .acquired →
      Node.Step free n .flag { n with election := true, loop := .lead }
  | lead {n : Node} : n.loop = .lead →
      Node.Step free n .lead { n with leader := true, loop := .work }
  | work {n : Node} : n.loop = .work → Node.Step free n .work { n with loop := .sleep }
  | follow {n : Node} : n.loop = .follow →
      Node.Step free n .follow { n with leader := false, loop := .sleep }
  | sleep {n : Node} : n.loop = .sleep → Node.Step free n .sleep { n with loop := .test }
  /-- A crash closes the handle. So does the end of the controller. -/
  | crash {n : Node} : Node.Step free n .crash { n with alive := false, handle := false }

variable {ι : Type}

/-- No open handle has the lock. -/
def LockFree (s : ι → Node) : Prop := ∀ i, (s i).handle = false

/-- A step of one node. -/
inductive HaStep [DecidableEq ι] : (ι → Node) → ι × HaAction → (ι → Node) → Prop
  | node {s : ι → Node} {i : ι} {action : HaAction} {n : Node} : (s i).alive = true →
      (s i).Step (LockFree s) action n → HaStep s (i, action) (Function.update s i n)

/-- Controllers that have not been started. -/
def fresh : ι → Node := fun _ => {}

end EmailServer.Ha
