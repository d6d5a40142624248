import EmailServer.Queue.MailQueue

/-! # The retry worker and the calls on the queue

`RetryWorker::runOnce` is the only caller of `fetchReady` and of the mark
operations in the program. What its delivery attempt answers is a parameter,
and so is whether its log calls return: the logger throws where it cannot
rotate its file. The log calls of the queue's own functions come after their
last file operation or are swallowed, and are left out.
-/

namespace EmailServer.Queue

structure DeliveryResult where
  success : Bool
  permanentFailure : Bool
  errorMessage : Bytes
  retryAfterSeconds : Nat

/-- `SmtpDeliveryClient::deliver` on sender, recipient and raw message. -/
abbrev Deliver := Bytes → Bytes → Bytes → Except Exn DeliveryResult

/-- Whether the log calls of a pass return: the one before the delivery, and the one between the
    delivery and the mark. -/
structure PassLogs where
  attempting : Bool := true
  concluded : Bool := true

def orUnknown (address : Bytes) : Bytes :=
  if address = [] then ascii "unknown@localhost" else address

/-- Mark the message by what its delivery came to. -/
def settle (msg : QueueMessage) (result : DeliveryResult) : QueueProg (Except Exn Unit) :=
  if result.success then markSuccess msg.id
  else if result.permanentFailure then markPermFail msg
  else markTempFail msg

/-- The delivery between its two log calls. -/
def tryDelivery (deliver : Deliver) (logs : PassLogs) (msg : QueueMessage) :
    Except Exn DeliveryResult :=
  if !logs.attempting then .error .filesystemError
  else
    match deliver (orUnknown msg.sender) (orUnknown msg.recipient) msg.rawData with
    | .error e => .error e
    | .ok result => if logs.concluded then .ok result else .error .filesystemError

/-- What a pass does with the message it has fetched. -/
def process (deliver : Deliver) (logs : PassLogs) (msg : QueueMessage) : QueueProg (Except Exn Unit) :=
  if msg.rawData = [] then markTempFail msg
  else
    match tryDelivery deliver logs msg with
    | .error e => .pure (.error e)
    | .ok result => settle msg result

/-- One pass. Returns the message that was fetched, which is also handed to the
    scanners once it has been marked. -/
def runOnce (deliver : Deliver) (logs : PassLogs) : QueueProg (Except Exn (Option QueueMessage)) :=
  fetchReady.bind fun
    | .error e => .pure (.error e)
    | .ok none => .pure (.ok none)
    | .ok (some msg) => (process deliver logs msg).map fun
        | .error e => .error e
        | .ok () => .ok (some msg)

/-- The calls a worker or a starting process makes on the queue. -/
inductive Call where
  | enqueue (sender recipient raw : Bytes)
  | fetchReady
  | markSuccess (id : Bytes)
  | markTempFail (msg : QueueMessage)
  | markPermFail (msg : QueueMessage)
  | runOnce (deliver : Deliver) (logs : PassLogs)
  | recoverOrphanedTempFiles

inductive Outcome where
  | enqueued (result : Except Exn Bytes)
  | fetched (result : Except Exn (Option QueueMessage))
  | finished

def Call.program : Call → QueueProg Outcome
  | .enqueue sender recipient raw => (Queue.enqueue sender recipient raw).map .enqueued
  | .fetchReady => Queue.fetchReady.map .fetched
  | .markSuccess id => (Queue.markSuccess id).map fun _ => .finished
  | .markTempFail msg => (Queue.markTempFail msg).map fun _ => .finished
  | .markPermFail msg => (Queue.markPermFail msg).map fun _ => .finished
  | .runOnce deliver logs => (Queue.runOnce deliver logs).map .fetched
  | .recoverOrphanedTempFiles => Queue.recoverOrphanedTempFiles.map fun _ => .finished

end EmailServer.Queue
