import Mathlib.Logic.Function.Basic
import EmailServer.Library.Bytes
import EmailServer.Library.Program

/-! # The sandbox engine

Threads submit jobs to a queue, one worker takes them off and has them analysed, and a
thread stops the engine. The mutex of the engine is held for one look at the queue at a
time, so a critical section of another thread is one step, taken while the worker does
not hold it. A notification comes after the section it belongs to.

The stores that the worker records verdicts in have a mutex each. It is not recursive: a
thread that locks it again waits for ever. The files that the stores write are left out;
writing one may throw. What the worker does not catch ends the process.
-/

namespace EmailServer.Virus

inductive SandboxVerdict where
  | unknown
  | clean
  | suspicious
  | malicious
  deriving DecidableEq

structure SandboxResult where
  sha256 : Bytes
  verdict : SandboxVerdict := .unknown
  reportUrl : Bytes := []
  deriving DecidableEq

inductive ThreatVerdict where
  | clean
  | suspicious
  | malicious
  deriving DecidableEq

structure HashReputation where
  verdict : ThreatVerdict
  source : Bytes
  deriving DecidableEq

structure Job where
  sha256 : Bytes
  raw : Bytes
  deriving DecidableEq

/-! ## The stores -/

inductive Store where
  | hashReputation
  | ioc
  | sandboxVerdict
  deriving DecidableEq

structure Stores where
  /-- The mutexes that the worker holds. -/
  locked : Store → Bool := fun _ => false
  reputations : Bytes → Option HashReputation
  hashes : Bytes → Bool
  /-- Whether it is malicious. -/
  verdicts : Bytes → Option Bool

inductive Op where
  | analyze (provider : Nat) (job : Job)
  | lock (store : Store)
  | unlock (store : Store)
  | setReputation (sha256 : Bytes) (reputation : HashReputation)
  | insertHash (sha256 : Bytes)
  | setVerdict (sha256 : Bytes) (malicious : Bool)
  /-- Write the file of a store. -/
  | write (store : Store)
  /-- An exception leaves the thread. -/
  | terminate

/-- Of `write`, whether it succeeds. -/
abbrev Res : Op → Type
  | .analyze _ _ => SandboxResult
  | .write _ => Bool
  | _ => Unit

abbrev SandboxProg := Prog Op Res

/-- A provider may return anything. -/
def sem : Sem Op Res Stores
  | .analyze _ _, s, _, t => t = s
  | .lock store, s, _, t =>
      s.locked store = false ∧ t = { s with locked := Function.update s.locked store true }
  | .unlock store, s, _, t => t = { s with locked := Function.update s.locked store false }
  | .setReputation sha256 reputation, s, _, t =>
      t = { s with reputations := Function.update s.reputations sha256 (some reputation) }
  | .insertHash sha256, s, _, t => t = { s with hashes := Function.update s.hashes sha256 true }
  | .setVerdict sha256 malicious, s, _, t =>
      t = { s with verdicts := Function.update s.verdicts sha256 (some malicious) }
  | .write _, s, _, t => t = s
  | .terminate, _, _, _ => False

/-- `std::lock_guard` around the body. -/
def guarded (store : Store) (body : SandboxProg Unit) : SandboxProg Unit :=
  .step (.lock store) fun _ => body.bind fun _ => .step (.unlock store) fun _ => .pure ()

/-- Of the stores that do not catch what `rename` throws. -/
def saveUnlocked (store : Store) : SandboxProg Unit :=
  .step (.write store) fun ok => if ok then .pure () else .step .terminate fun _ => .pure ()

namespace HashReputationStore

def update (sha256 : Bytes) (verdict : ThreatVerdict) (source : Bytes) : SandboxProg Unit :=
  (guarded .hashReputation
    (.step (.setReputation sha256 ⟨verdict, source⟩) fun _ => .pure ())).bind fun _ =>
      guarded .hashReputation (saveUnlocked .hashReputation)

end HashReputationStore

namespace IOCStore

/-- Here an exception is caught. -/
def save : SandboxProg Unit := guarded .ioc (.step (.write .ioc) fun _ => .pure ())

def addHash (sha256 : Bytes) : SandboxProg Unit :=
  guarded .ioc (.step (.insertHash sha256) fun _ => save)

end IOCStore

namespace SandboxVerdictStore

def store (r : SandboxResult) : SandboxProg Unit :=
  (guarded .sandboxVerdict
    (.step (.setVerdict r.sha256 (r.verdict == .malicious)) fun _ => .pure ())).bind fun _ =>
      guarded .sandboxVerdict (saveUnlocked .sandboxVerdict)

end SandboxVerdictStore

/-- What a malicious verdict leads to. -/
def flag (job : Job) (verdict : SandboxResult) : SandboxProg Unit :=
  (HashReputationStore.update job.sha256 .malicious (ascii "sandbox")).bind fun _ =>
    (IOCStore.addHash job.sha256).bind fun _ => SandboxVerdictStore.store verdict

/-- The loop over the providers. -/
def analyse (job : Job) : List Nat → SandboxProg Unit
  | [] => .pure ()
  | provider :: rest =>
      .step (.analyze provider job) fun verdict =>
        if verdict.verdict = .malicious then flag job verdict
        else if verdict.verdict ≠ .unknown then SandboxVerdictStore.store verdict
        else analyse job rest

/-! ## The worker and the other threads -/

inductive Worker where
  /-- About to lock the mutex, at the start of the loop or woken. -/
  | locking
  /-- It has the mutex and looks at the predicate of `wait`. -/
  | testing
  | waiting
  | working (job : Job) (rest : SandboxProg Unit)
  | left
  /-- The process has ended with this job in hand. -/
  | killed (job : Job)

/-- The job in the worker's hand. -/
def Worker.job : Worker → List Job
  | .working job _ | .killed job => [job]
  | _ => []

/-- After `notify_one` or `notify_all`: only the worker ever waits. -/
def Worker.notified : Worker → Worker
  | .waiting => .locking
  | worker => worker

structure SandboxEngine where
  providers : List Nat
  queue : List Job := []
  running : Bool := true
  stores : Stores
  worker : Worker := .locking
  /-- Submissions that have not notified yet. -/
  submitting : Nat := 0
  /-- `stop` has not notified yet. -/
  stopping : Bool := false
  submitted : List Job := []
  taken : List Job := []
  finished : List Job := []

namespace SandboxEngine

/-- The worker does not hold the mutex, and the process is there. -/
def Free (s : SandboxEngine) : Prop :=
  match s.worker with
  | .testing | .killed _ => False
  | _ => True

inductive Label where
  | submit (job : Job)
  | notifyOne
  | stop
  | notifyAll
  /-- A spurious wake-up. -/
  | wake
  | lock
  | wait
  | leave
  | take (job : Job)
  | operate (op : Op) (answer : Res op)
  | terminate
  | finish

/-- Jobs are submitted until the engine is stopped. -/
inductive Step : SandboxEngine → Label → SandboxEngine → Prop
  | submit {s job} : s.Free → s.running = true →
      Step s (.submit job) { s with
        queue := s.queue ++ [job]
        submitting := s.submitting + 1
        submitted := s.submitted ++ [job] }
  | notifyOne {s n} : s.submitting = n + 1 →
      Step s .notifyOne { s with submitting := n, worker := s.worker.notified }
  | stop {s} : s.Free → s.running = true →
      Step s .stop { s with running := false, stopping := true }
  | notifyAll {s} : s.stopping = true →
      Step s .notifyAll { s with stopping := false, worker := s.worker.notified }
  | wake {s} : s.worker = .waiting → Step s .wake { s with worker := .locking }
  | lock {s} : s.worker = .locking → Step s .lock { s with worker := .testing }
  | wait {s} : s.worker = .testing → s.queue = [] → s.running = true →
      Step s .wait { s with worker := .waiting }
  | leave {s} : s.worker = .testing → s.running = false → s.queue = [] →
      Step s .leave { s with worker := .left }
  | take {s job rest} : s.worker = .testing → s.queue = job :: rest →
      Step s (.take job) { s with
        queue := rest
        worker := .working job (analyse job s.providers)
        taken := s.taken ++ [job] }
  | operate {s job op next r t} : s.worker = .working job (.step op next) →
      sem op s.stores r t →
      Step s (.operate op r) { s with stores := t, worker := .working job (next r) }
  | terminate {s job next} : s.worker = .working job (.step .terminate next) →
      Step s .terminate { s with worker := .killed job }
  | finish {s job} : s.worker = .working job (.pure ()) →
      Step s .finish { s with worker := .locking, finished := s.finished ++ [job] }

/-- Just after `start`, with the stores as they were loaded. -/
def started (providers : List Nat) (reputations : Bytes → Option HashReputation)
    (hashes : Bytes → Bool) (verdicts : Bytes → Option Bool) : SandboxEngine :=
  { providers := providers
    stores := { reputations := reputations, hashes := hashes, verdicts := verdicts } }

end SandboxEngine

end EmailServer.Virus
