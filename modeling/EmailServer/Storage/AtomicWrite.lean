import EmailServer.Library.FileSystem

/-! # Atomic file writes

The mail store and the queue carry the same `atomicWriteFile`: write a
temporary file next to the target, flush it, and rename it over the target.
The two differ in their paths only, so the function takes the temporary path
`path + ".tmp"` as an argument.
-/

namespace EmailServer

/-- A program on the file system. -/
abbrev FileProg (P D α : Type) := Prog (FsOp P D) FsOp.Res α

/-- An exception that leaves a function. -/
inductive Exn where
  | filesystemError
  | runtimeError (what : Bytes)
  deriving DecidableEq

namespace AtomicWrite

variable {P D : Type}

def discard (tempPath : P) : FileProg P D (Except Exn Bool) :=
  .step (.deleteFile tempPath) fun _ => .pure (.ok false)

/-- Give up on the open temporary file. -/
def abandon (tempPath : P) : FileProg P D (Except Exn Bool) :=
  .step (.closeHandle tempPath) fun _ => discard tempPath

/-- Verify that the final file exists; the check itself may throw. -/
def verify (path : P) : FileProg P D (Except Exn Bool) :=
  .step (.fileExists path) fun
    | none => .pure (.error .filesystemError)
    | some found => .pure (.ok found)

/-- The atomic rename at the end. -/
def renameOver (tempPath path : P) : FileProg P D (Except Exn Bool) :=
  .step (.moveFileEx tempPath path) fun moved =>
    if moved then verify path else discard tempPath

/-- `bytesWritten != content.size()` compares the count of a call whose length
    argument was cut to 32 bits with the full size. -/
def atomicWriteFile (tempPath path : P) (content : Bytes) : FileProg P D (Except Exn Bool) :=
  .step (.createFile tempPath) fun created =>
    if !created then .pure (.ok false) else
      .step (.writeFile tempPath (content.take (content.length % 2 ^ 32))) fun bytesWritten =>
        if bytesWritten ≠ some content.length then abandon tempPath else
          .step (.flushFileBuffers tempPath) fun flushed =>
            if !flushed then abandon tempPath else
              .step (.closeHandle tempPath) fun _ => renameOver tempPath path

end AtomicWrite

end EmailServer
