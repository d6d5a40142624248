import EmailServer.Ha.Leadership
import EmailServer.Queue.Fetching

/-! # Nodes that share a queue

The thread of a leading node makes one pass over the queue after the other. Every file
operation of a pass is a step, and between any two of them other nodes and the producers of
messages do theirs, or a node crashes. File operations may fail, as in every
interleaving of calls on the queue.

Logs, the count of the backlog and the scans after a delivery are left out. A log that
throws in `runOnce` is caught nowhere, and ends the node as a crash does.
-/

namespace EmailServer.Ha

open Queue (QueueMessage QueuePool QueueState DeliveryResult Call callProgram)

/-- Where `runOnce` is on a node. -/
inductive Work where
  /-- Not begun. -/
  | idle
  | fetching
  | delivering (msg : QueueMessage)
  /-- In one of the mark operations. -/
  | marking (msg : QueueMessage)
  | finished
  deriving DecidableEq

/-- The message has been handed out to the node, and its mark operation has not returned. -/
def Work.holds (id : Bytes) : Work → Bool
  | .delivering msg | .marking msg => msg.id == id
  | _ => false

/-- The nodes, and the queue with a thread for each node and each producer. -/
structure Cluster (ι ε : Type) where
  nodes : ι → Node
  work : ι → Work
  queue : QueuePool (ι ⊕ ε)

/-- What `runOnce` calls when its delivery came to `result`. -/
def markCall (msg : QueueMessage) (result : DeliveryResult) : Call :=
  if result.success then .markSuccess msg.id
  else if result.permanentFailure then .markPermFail msg
  else .markTempFail msg

theorem markCall_settles (msg : QueueMessage) (result : DeliveryResult) :
    (markCall msg result).program = (Queue.settle msg result).map fun _ => .finished := by
  unfold markCall Queue.settle
  split
  · rfl
  split <;> rfl

/-- The calls that fill the queue, and that of a starting process. -/
def Produces : Call → Prop
  | .enqueue _ _ _ | .recoverOrphanedTempFiles => True
  | _ => False

inductive ClusterLabel (ι : Type) where
  | node (i : ι) (action : HaAction)
  /-- The message is handed to `deliver`. -/
  | attempt (i : ι) (msg : QueueMessage)
  | marked (i : ι)
  | inside
  deriving DecidableEq

namespace Cluster

variable {ι ε : Type} [DecidableEq ι] [DecidableEq ε]

/-- Nodes that have not been started and an empty queue. -/
def start (now : Nat) : Cluster ι ε := ⟨fresh, fun _ => .idle, .start (QueueState.initial now)⟩

/-- A thread of the queue goes on with `p`, or with nothing. -/
def thread (c : Cluster ι ε) (x : ι ⊕ ε)
    (p : Option (Queue.QueueProg (Call × Queue.Outcome))) : Cluster ι ε :=
  { c with queue.running := Function.update c.queue.running x p }

def works (c : Cluster ι ε) (i : ι) (w : Work) : Cluster ι ε :=
  { c with work := Function.update c.work i w }

/-- A call has returned. -/
def returns (c : Cluster ι ε) (x : ι ⊕ ε) (result : Call × Queue.Outcome) : Cluster ι ε :=
  { c.thread x none with queue.returned := result :: c.queue.returned }

/-- An exception that leaves a call ends the process. After `fetchReady` there is no step but a
    crash; that a mark operation has thrown is not recorded, and the node may crash at any time. -/
inductive Step : Cluster ι ε → ClusterLabel ι → Cluster ι ε → Prop
  | node {c i action nodes} : action ≠ .lead → action ≠ .work → action ≠ .crash →
      HaStep c.nodes (i, action) nodes → Step c (.node i action) { c with nodes := nodes }
  | lead {c : Cluster ι ε} {i nodes} : HaStep c.nodes (i, .lead) nodes →
      Step c (.node i .lead)
        (({ c with nodes := nodes }.works i .fetching).thread (.inl i)
          (some (callProgram .fetchReady)))
  | nothing {c : Cluster ι ε} {i} : c.work i = .fetching →
      c.queue.running (.inl i) = some (.pure (.fetchReady, .fetched (.ok none))) →
      Step c .inside ((c.works i .finished).returns (.inl i) (.fetchReady, .fetched (.ok none)))
  | fetched {c : Cluster ι ε} {i msg} : c.work i = .fetching →
      c.queue.running (.inl i) = some (.pure (.fetchReady, .fetched (.ok (some msg)))) →
      msg.rawData ≠ [] →
      Step c (.attempt i msg)
        ((c.works i (.delivering msg)).returns (.inl i) (.fetchReady, .fetched (.ok (some msg))))
  /-- "Empty message" -/
  | empty {c : Cluster ι ε} {i msg} : c.work i = .fetching →
      c.queue.running (.inl i) = some (.pure (.fetchReady, .fetched (.ok (some msg)))) →
      msg.rawData = [] →
      Step c .inside
        (((c.works i (.marking msg)).returns (.inl i) (.fetchReady, .fetched (.ok (some msg)))).thread
          (.inl i) (some (callProgram (.markTempFail msg))))
  | answered {c : Cluster ι ε} {i msg} (result : DeliveryResult) : c.work i = .delivering msg →
      Step c .inside
        ((c.works i (.marking msg)).thread (.inl i) (some (callProgram (markCall msg result))))
  | marked {c : Cluster ι ε} {i msg result} : c.work i = .marking msg →
      c.queue.running (.inl i) = some (.pure result) →
      Step c (.marked i) ((c.works i .finished).returns (.inl i) result)
  | done {c : Cluster ι ε} {i nodes} : c.work i = .finished → HaStep c.nodes (i, .work) nodes →
      Step c (.node i .work) ({ c with nodes := nodes }.works i .idle)
  | crash {c : Cluster ι ε} {i nodes} : HaStep c.nodes (i, .crash) nodes →
      Step c (.node i .crash) (({ c with nodes := nodes }.works i .idle).thread (.inl i) none)
  | operate {c : Cluster ι ε} {x op next r t} : c.queue.running x = some (.step op next) →
      QueueState.sem Queue.concurrent x op c.queue.shared r t →
      Step c .inside ({ c with queue.shared := t }.thread x (some (next r)))
  | produce {c : Cluster ι ε} {e call} : c.queue.running (.inr e) = none → Produces call →
      Step c .inside (c.thread (.inr e) (some (callProgram call)))
  | produced {c : Cluster ι ε} {e result} : c.queue.running (.inr e) = some (.pure result) →
      Step c .inside (c.returns (.inr e) result)
  | killed {c : Cluster ι ε} (e : ε) : Step c .inside (c.thread (.inr e) none)
  | wait {c : Cluster ι ε} {t} : QueueState.Tick c.queue.shared t →
      Step c .inside { c with queue.shared := t }

end Cluster

/-- The message waits in `active`, or has been handed out and not been marked. -/
def Open (s : Disk Queue.QueuePath) (id : Bytes) : Prop :=
  s.files (Queue.msgPath .active id) ≠ none ∨ s.files (Queue.msgPath .inflight id) ≠ none

instance (s : Disk Queue.QueuePath) (id : Bytes) : Decidable (Open s id) :=
  inferInstanceAs (Decidable (_ ∨ _))

section Counts

variable {ι ε : Type}

abbrev Went (ι ε : Type) := Taken (ClusterLabel ι) (Cluster ι ε)

/-- The step hands the message to `deliver`. -/
def Went.attempts (id : Bytes) (x : Went ι ε) : Bool :=
  match x.label with
  | .attempt _ msg => msg.id == id
  | _ => false

/-- The step ends the attempt of the message and leaves the message open: its node crashes,
    or its mark operation comes to nothing. -/
def Went.reopens (id : Bytes) (x : Went ι ε) : Bool :=
  match x.label with
  | .node i .crash => (x.before.work i).holds id
  | .marked i => (x.before.work i).holds id && decide (Open x.after.queue.shared.disk id)
  | _ => false

end Counts

end EmailServer.Ha
