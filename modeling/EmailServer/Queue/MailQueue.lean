import EmailServer.Library.LexicalPath
import EmailServer.Storage.AtomicWrite

/-! # The outgoing mail queue

`MailQueue` keeps each message as a file and moves it between four directories
with renames. A message is leased by moving it to `inflight`; the age of a
lease is read off the file's last write time.

The functions are programs over single file operations, so that the same
definitions serve one worker running alone and several workers interleaved.
Logging and metrics are left out; what a line for the log throws comes after the
last file operation of a function, or is swallowed.
-/

namespace EmailServer.Queue

/-- The directories below `queue/`. -/
inductive QueueDir where
  | active
  | inflight
  | failure
  | permanentFail
  deriving DecidableEq

/-- A file of the queue: `queue/<dir>/<name>`. -/
structure QueuePath where
  dir : QueueDir
  name : Bytes
  deriving DecidableEq

/-- What is scanned: one of the directories, or all of `queue` recursively. -/
inductive QueueScan where
  | directory (dir : QueueDir)
  | recursive
  deriving DecidableEq

abbrev QueueProg := FileProg QueuePath QueueScan

structure QueueMessage where
  id : Bytes
  sender : Bytes
  recipient : Bytes
  rawData : Bytes
  deriving DecidableEq

/-- Ticks of the file clock in a second. -/
def ticksPerSecond : Nat := 10000000

def LEASE_TIMEOUT_SEC : Nat := 300
def MAX_QUEUE_DEPTH : Nat := 100000

/-- `<id>.msg` -/
def msgName (id : Bytes) : Bytes := id ++ ascii ".msg"

/-- `<id>.msg.tmp` -/
def tmpName (id : Bytes) : Bytes := msgName id ++ ascii ".tmp"

/-- `queue/<dir>/<id>.msg` -/
def msgPath (dir : QueueDir) (id : Bytes) : QueuePath := ⟨dir, msgName id⟩

/-- `queue/active/<id>.msg.tmp` -/
def tmpPath (id : Bytes) : QueuePath := ⟨.active, tmpName id⟩

def isMsg (p : QueuePath) : Bool := FileName.extension p.name == ascii ".msg"
def isTmp (p : QueuePath) : Bool := FileName.extension p.name == ascii ".tmp"

/-- What `genId` can build: a clock count and a random number. -/
def idText (ticks nonce : Nat) : Bytes := toDecimal ticks ++ ascii "-" ++ toDecimal nonce

def enqueuedContent (sender recipient raw : Bytes) : Bytes :=
  ascii "FROM: " ++ sender ++ ascii "\n" ++ ascii "TO: " ++ recipient ++ ascii "\n" ++
    ascii "---RAW---\n" ++ raw

def enqueue (sender recipient raw : Bytes) : QueueProg (Except Exn Bytes) :=
  .step (.iterate (.directory .active)) fun
    | none => .pure (.error .filesystemError)
    | some entries =>
      if (entries.filter isMsg).length ≥ MAX_QUEUE_DEPTH then
        .pure (.error (.runtimeError (ascii "Queue depth limit exceeded")))
      else
        .step .freshId fun id =>
        (AtomicWrite.atomicWriteFile (tmpPath id) (msgPath .active id)
            (enqueuedContent sender recipient raw)).bind fun
          | .ok true => .pure (.ok id)
          | .ok false =>
              .pure (.error (.runtimeError (ascii "Failed to durably enqueue message")))
          | .error e => .pure (.error e)

/-- Whether the file's last write is older than the lease timeout; throws when
    the file is gone. -/
def isLeaseExpired (p : QueuePath) : QueueProg (Except Exn Bool) :=
  .step (.lastWriteTime p) fun
    | none => .pure (.error .filesystemError)
    | some last => .step .clockNow fun now =>
        .pure (.ok (decide (now > last + LEASE_TIMEOUT_SEC * ticksPerSecond)))

/-- The first loop of `fetchReady`: recover expired leases. -/
def reclaimExpired : List QueuePath → QueueProg (Except Exn Unit)
  | [] => .pure (.ok ())
  | f :: rest =>
      if isMsg f then
        (isLeaseExpired f).bind fun
          | .error e => .pure (.error e)
          | .ok true => .step (.rename f ⟨.active, f.name⟩) fun _ => reclaimExpired rest
          | .ok false => reclaimExpired rest
      else reclaimExpired rest

/-- `raw.find(key)`, then the text up to the next line feed without trailing
    spaces and carriage returns; empty when either is missing. -/
def headerField (key raw : Bytes) : Bytes :=
  match raw.tails.find? (key.isPrefixOf ·) with
  | none => []
  | some hit =>
      let value := hit.drop key.length
      if Bytes.lf ∈ hit then
        ((value.takeWhile (· != Bytes.lf)).reverse.dropWhile
          (fun c => c == Bytes.space || c == Bytes.cr)).reverse
      else []

def parseMessage (id raw : Bytes) : QueueMessage where
  id := id
  sender := headerField (ascii "FROM: ") raw
  recipient := headerField (ascii "TO: ") raw
  rawData := raw

/-- The second loop of `fetchReady`: lease a ready message. -/
def leaseFirst : List QueuePath → QueueProg (Option QueueMessage)
  | [] => .pure none
  | f :: rest =>
      if isMsg f then
        let inflight : QueuePath := ⟨.inflight, f.name⟩
        .step (.fileExists inflight) fun
          | none => leaseFirst rest
          | some true => leaseFirst rest
          | some false => .step (.rename f inflight) fun leased =>
            if !leased then leaseFirst rest else
            .step (.fileExists inflight) fun
              | none => leaseFirst rest
              | some false => leaseFirst rest
              | some true => .step (.readFile inflight) fun
                | none => .step (.rename inflight f) fun _ => leaseFirst rest
                | some [] =>
                    .step (.rename inflight ⟨.permanentFail, f.name⟩) fun _ => leaseFirst rest
                | some raw => .pure (some (parseMessage (FileName.stem f.name) raw))
      else leaseFirst rest

def fetchReady : QueueProg (Except Exn (Option QueueMessage)) :=
  .step (.iterate (.directory .inflight)) fun
    | none => .pure (.error .filesystemError)
    | some leased => (reclaimExpired leased).bind fun
      | .error e => .pure (.error e)
      | .ok () => .step (.iterate (.directory .active)) fun
        | none => .pure (.error .filesystemError)
        | some ready => (leaseFirst ready).map .ok

def markSuccess (id : Bytes) : QueueProg (Except Exn Unit) :=
  .step (.fileExists (msgPath .inflight id)) fun
    | none => .pure (.error .filesystemError)
    | some false => .pure (.ok ())
    | some true => .step (.remove (msgPath .inflight id)) fun
      | none => .pure (.error .filesystemError)
      | some _ => .pure (.ok ())

/-- Put the leased message `msg` into `dst`; a failed rename is swallowed. -/
def markFail (dst : QueueDir) (msg : QueueMessage) : QueueProg (Except Exn Unit) :=
  .step (.rename (msgPath .inflight msg.id) (msgPath dst msg.id)) fun _ => .pure (.ok ())

def markTempFail (msg : QueueMessage) : QueueProg (Except Exn Unit) := markFail .failure msg

def markPermFail (msg : QueueMessage) : QueueProg (Except Exn Unit) :=
  markFail .permanentFail msg

/-- Remove the temporary files among `entries`; a failed removal is logged only. -/
def removeOrphans : List QueuePath → QueueProg Unit
  | [] => .pure ()
  | f :: rest =>
      if isTmp f then .step (.remove f) fun _ => removeOrphans rest else removeOrphans rest

def recoverOrphanedTempFiles : QueueProg Unit :=
  .step (.iterate .recursive) fun
    | none => .pure ()
    | some entries => removeOrphans entries

/-- The ids `list` finds in one directory. -/
def listDir (dir : QueueDir) : QueueProg (Except Exn (List Bytes)) :=
  .step (.iterate (.directory dir)) fun
    | none => .pure (.error .filesystemError)
    | some entries => .pure (.ok ((entries.filter isMsg).map fun f => FileName.stem f.name))

/-- The ids of the messages `list` returns; it fills in no other field. -/
def list : QueueProg (Except Exn (List Bytes)) :=
  (listDir .active).bind fun
    | .error e => .pure (.error e)
    | .ok active => (listDir .inflight).bind fun
      | .error e => .pure (.error e)
      | .ok inflight => (listDir .failure).map fun
        | .error e => .error e
        | .ok failure => .ok (active ++ inflight ++ failure)

end EmailServer.Queue
