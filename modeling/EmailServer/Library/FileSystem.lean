import Mathlib.Data.Set.Finite.List
import Mathlib.Logic.Function.Basic
import EmailServer.Library.Bytes
import EmailServer.Library.Program

/-! # A disk with fallible operations

The operations are those of the Win32 file API and of `std::filesystem` that a
store written on them uses. Each is atomic. Which of them may fail, how a path
names a file and what a directory scan may report belong to the `Platform`.

A failed operation leaves the disk as it was, except that a failed write may
have written anything.
-/

namespace EmailServer

/-- A file. `synced` says that its data has reached the disk, `written` is the
    last write time, which renaming keeps. -/
structure File where
  data : Bytes
  synced : Bool
  written : Nat
  deriving DecidableEq

/-- Files and directories, the clock in ticks, and the identifiers drawn so far. -/
structure Disk (P : Type) where
  files : P → Option File
  dirs : P → Bool
  now : Nat
  drawn : List Bytes

/-- Operations on paths `P` and scannable directories `D`. -/
inductive FsOp (P D : Type) where
  /-- `CreateFileA` with `CREATE_ALWAYS`. -/
  | createFile (p : P)
  | writeFile (p : P) (data : Bytes)
  | flushFileBuffers (p : P)
  | closeHandle (p : P)
  /-- `MoveFileExA` with `MOVEFILE_REPLACE_EXISTING`. -/
  | moveFileEx (src dst : P)
  | deleteFile (p : P)
  | fileExists (p : P)
  | rename (src dst : P)
  | remove (p : P)
  | createDirectories (p : P)
  /-- A scan of a directory, reported as a whole. -/
  | iterate (d : D)
  | lastWriteTime (p : P)
  /-- Open a file and read it to its end. -/
  | readFile (p : P)
  | clockNow
  /-- Draw a new identifier. -/
  | freshId
  /-- Write a line to a log that is kept elsewhere. -/
  | log (message : Bytes)

namespace FsOp

variable {P D : Type}

/-- Answers. A `Bool` is the success of a call, `none` a call that throws or
    does not succeed where a success carries a value. -/
@[reducible] def Res : FsOp P D → Type
  | .createFile _ | .flushFileBuffers _ | .moveFileEx _ _ | .deleteFile _ => Bool
  | .rename _ _ | .createDirectories _ | .log _ => Bool
  | .closeHandle _ => Unit
  | .writeFile _ _ | .lastWriteTime _ => Option Nat
  | .fileExists _ | .remove _ => Option Bool
  | .iterate _ => Option (List P)
  | .readFile _ => Option Bytes
  | .clockNow => Nat
  | .freshId => Bytes

/-- The paths whose files an operation can change. -/
def writes : FsOp P D → List P
  | .createFile p | .writeFile p _ | .flushFileBuffers p | .deleteFile p | .remove p => [p]
  | .moveFileEx src dst | .rename src dst => [src, dst]
  | _ => []

end FsOp

namespace Disk

variable {P : Type}

/-- What the files hold. -/
def contents (s : Disk P) (p : P) : Option Bytes := (s.files p).map File.data

/-- A disk on which everything has been written long ago. -/
def holding (contents : P → Option Bytes) (dirs : P → Bool) (now : Nat) : Disk P where
  files p := (contents p).map fun data => ⟨data, true, 0⟩
  dirs := dirs
  now := now
  drawn := []

/-- What is on the disk survives a crash. Anything can have become of a file
    whose data had not got there. -/
structure Crash (s t : Disk P) : Prop where
  synced : ∀ p f, s.files p = some f → f.synced = true → t.files p = some f
  absent : ∀ p, s.files p = none → t.files p = none

theorem holding_synced {contents : P → Option Bytes} {dirs : P → Bool} {now : Nat} {p : P}
    {f : File} (found : (holding contents dirs now).files p = some f) : f.synced = true := by
  obtain ⟨data, -, rfl⟩ := Option.map_eq_some_iff.mp found
  rfl

theorem contents_congr {s t : Disk P} {p : P} (same : t.files p = s.files p) :
    t.contents p = s.contents p := by
  rw [contents, same, contents]

variable [DecidableEq P]

def put (s : Disk P) (p : P) (f : File) : Disk P :=
  { s with files := Function.update s.files p (some f) }

def clear (s : Disk P) (p : P) : Disk P := { s with files := Function.update s.files p none }

/-- Replace the data of an existing file. -/
def overwrite (s : Disk P) (p : P) (data : Bytes) : Disk P :=
  match s.files p with
  | some _ => s.put p ⟨data, false, s.now⟩
  | none => s

/-- Bring an existing file's data to the disk. -/
def sync (s : Disk P) (p : P) : Disk P :=
  match s.files p with
  | some f => s.put p { f with synced := true }
  | none => s

/-- Move the file `f` from `src` to `dst`, replacing what is there. -/
def move (s : Disk P) (src dst : P) (f : File) : Disk P := (s.clear src).put dst f

def makeDirs (s : Disk P) (ps : List P) : Disk P :=
  { s with dirs := fun q => s.dirs q || decide (q ∈ ps) }

/-- There is a file or a directory at `p`. -/
def present (s : Disk P) (p : P) : Bool := (s.files p).isSome || s.dirs p

variable (s : Disk P) (p q : P) (f : File) (data : Bytes)

@[simp] theorem put_files : (s.put p f).files = Function.update s.files p (some f) := rfl
@[simp] theorem put_dirs : (s.put p f).dirs = s.dirs := rfl
@[simp] theorem put_now : (s.put p f).now = s.now := rfl
@[simp] theorem put_drawn : (s.put p f).drawn = s.drawn := rfl
@[simp] theorem clear_files : (s.clear p).files = Function.update s.files p none := rfl
@[simp] theorem clear_dirs : (s.clear p).dirs = s.dirs := rfl
@[simp] theorem clear_now : (s.clear p).now = s.now := rfl
@[simp] theorem clear_drawn : (s.clear p).drawn = s.drawn := rfl
@[simp] theorem makeDirs_files (ps : List P) : (s.makeDirs ps).files = s.files := rfl
@[simp] theorem makeDirs_now (ps : List P) : (s.makeDirs ps).now = s.now := rfl

@[simp] theorem move_files (src dst : P) : (s.move src dst f).files =
    Function.update (Function.update s.files src none) dst (some f) := rfl
@[simp] theorem move_dirs (src dst : P) : (s.move src dst f).dirs = s.dirs := rfl
@[simp] theorem move_now (src dst : P) : (s.move src dst f).now = s.now := rfl
@[simp] theorem move_drawn (src dst : P) : (s.move src dst f).drawn = s.drawn := rfl

theorem clear_absent (absent : s.files p = none) : s.clear p = s := by
  rw [clear, ← absent, Function.update_eq_self]

theorem move_other {src dst : P} (notSrc : q ≠ src) (notDst : q ≠ dst) :
    (s.move src dst f).files q = s.files q := by
  simp [notSrc, notDst]

@[simp] theorem overwrite_now : (s.overwrite p data).now = s.now := by
  unfold overwrite; split <;> rfl
@[simp] theorem overwrite_dirs : (s.overwrite p data).dirs = s.dirs := by
  unfold overwrite; split <;> rfl
@[simp] theorem overwrite_drawn : (s.overwrite p data).drawn = s.drawn := by
  unfold overwrite; split <;> rfl
@[simp] theorem sync_now : (s.sync p).now = s.now := by unfold sync; split <;> rfl
@[simp] theorem sync_dirs : (s.sync p).dirs = s.dirs := by unfold sync; split <;> rfl
@[simp] theorem sync_drawn : (s.sync p).drawn = s.drawn := by unfold sync; split <;> rfl

theorem overwrite_other {q} (other : q ≠ p) : (s.overwrite p data).files q = s.files q := by
  unfold overwrite
  split <;> simp [other]

theorem sync_other {q} (other : q ≠ p) : (s.sync p).files q = s.files q := by
  unfold sync
  split <;> simp [other]

theorem overwrite_data {g : File} (found : (s.overwrite p data).files p = some g) :
    g.data = data := by
  unfold overwrite at found
  cases old : s.files p with
  | none => simp [old] at found
  | some f =>
      simp only [old, put_files, Function.update_self, Option.some.injEq] at found
      rw [← found]

theorem sync_found {g : File} (found : (s.sync p).files p = some g) :
    ∃ f, s.files p = some f ∧ g = { f with synced := true } := by
  unfold sync at found
  cases old : s.files p with
  | none => simp [old] at found
  | some f =>
      simp only [old, put_files, Function.update_self, Option.some.injEq] at found
      exact ⟨f, rfl, found.symm⟩

theorem sync_data {g : File} (found : (s.sync p).files p = some g) :
    ∃ f, s.files p = some f ∧ g.data = f.data := by
  obtain ⟨f, before, rfl⟩ := sync_found s p found
  exact ⟨f, before, rfl⟩

theorem sync_synced {g : File} (found : (s.sync p).files p = some g) : g.synced = true := by
  obtain ⟨f, -, rfl⟩ := sync_found s p found
  rfl

end Disk

/-- How paths name files, what may fail, and what a scan may report.
    `chain p` are the directories `create_directories p` makes sure of. -/
structure Platform (P D : Type) where
  locate : P → P
  chain : P → List P
  fails : FsOp P D → Prop
  lists : Disk P → D → List P → Prop
  /-- The identifiers that can be drawn at a time. -/
  draws : Nat → Bytes → Prop

namespace Platform

variable {P D : Type} [DecidableEq P] (W : Platform P D)

/-- Moving the file at `src` succeeds. -/
def Moves (s : Disk P) (src dst : P) (t : Disk P) : Prop :=
  ∃ f, s.files (W.locate src) = some f ∧ t = s.move (W.locate src) (W.locate dst) f

/-- An operation that needs the file at `p` does not succeed. -/
def Refuses (op : FsOp P D) (s : Disk P) (p : P) : Prop :=
  W.fails op ∨ s.files (W.locate p) = none

/-- What an operation may answer and do. -/
def Effect : Sem (FsOp P D) FsOp.Res (Disk P)
  | .createFile p, s, ok, t =>
      if ok then t = s.put (W.locate p) ⟨[], false, s.now⟩
      else W.fails (.createFile p) ∧ t = s
  | .writeFile p data, s, some n, t =>
      n ≤ data.length ∧ (n = data.length ∨ W.fails (.writeFile p data)) ∧
        t = s.overwrite (W.locate p) (data.take n)
  | .writeFile p data, s, none, t =>
      W.fails (.writeFile p data) ∧ ∃ bytes, t = s.overwrite (W.locate p) bytes
  | .flushFileBuffers p, s, ok, t =>
      if ok then t = s.sync (W.locate p) else W.fails (.flushFileBuffers p) ∧ t = s
  | .closeHandle _, s, _, t => t = s
  | .moveFileEx src dst, s, ok, t =>
      if ok then W.Moves s src dst t else W.Refuses (.moveFileEx src dst) s src ∧ t = s
  | .deleteFile p, s, ok, t =>
      if ok then t = s.clear (W.locate p) else W.Refuses (.deleteFile p) s p ∧ t = s
  | .fileExists p, s, some found, t => found = s.present (W.locate p) ∧ t = s
  | .fileExists p, s, none, t => W.fails (.fileExists p) ∧ t = s
  | .rename src dst, s, ok, t =>
      if ok then W.Moves s src dst t else W.Refuses (.rename src dst) s src ∧ t = s
  | .remove p, s, some removed, t =>
      removed = (s.files (W.locate p)).isSome ∧ t = s.clear (W.locate p)
  | .remove p, s, none, t => W.fails (.remove p) ∧ t = s
  | .createDirectories p, s, ok, t =>
      if ok then t = s.makeDirs ((W.chain p).map W.locate)
      else W.fails (.createDirectories p) ∧
        ∃ made, made ⊆ (W.chain p).map W.locate ∧ t = s.makeDirs made
  | .iterate d, s, some entries, t => W.lists s d entries ∧ t = s
  | .iterate d, s, none, t => W.fails (.iterate d) ∧ t = s
  | .lastWriteTime p, s, some time, t =>
      (∃ f, s.files (W.locate p) = some f ∧ time = f.written) ∧ t = s
  | .lastWriteTime p, s, none, t => W.Refuses (.lastWriteTime p) s p ∧ t = s
  | .readFile p, s, some raw, t =>
      (∃ f, s.files (W.locate p) = some f ∧ (raw = f.data ∨ W.fails (.readFile p))) ∧ t = s
  | .readFile p, s, none, t => W.Refuses (.readFile p) s p ∧ t = s
  | .clockNow, s, time, t => time = s.now ∧ t = s
  | .freshId, s, id, t =>
      W.draws s.now id ∧ id ∉ s.drawn ∧ t = { s with drawn := id :: s.drawn }
  | .log message, s, ok, t => (ok = false → W.fails (.log message)) ∧ t = s

/-- The paths at which an operation creates, writes or removes something: the
    files it names and the directories it has to make. -/
def touches (s : Disk P) : FsOp P D → List P
  | .createDirectories p => (W.chain p).filter fun q => !s.dirs (W.locate q)
  | op => op.writes

variable {W}

theorem effect_frame {op : FsOp P D} {s t : Disk P} {r : op.Res} (effect : W.Effect op s r t)
    {p : P} (other : ∀ q ∈ op.writes, p ≠ W.locate q) : t.files p = s.files p := by
  cases op <;> simp only [Effect] at effect <;>
    simp only [FsOp.writes, List.mem_cons, List.not_mem_nil, or_false, forall_eq_or_imp,
      forall_eq] at other
  case createFile | deleteFile =>
    split at effect
    · simp [effect, other]
    · rw [effect.2]
  case flushFileBuffers =>
    split at effect
    · rw [effect, Disk.sync_other _ _ other]
    · rw [effect.2]
  case moveFileEx | rename =>
    split at effect
    · obtain ⟨f, -, rfl⟩ := effect
      exact Disk.move_other _ _ _ other.1 other.2
    · rw [effect.2]
  case createDirectories =>
    split at effect
    · simp [effect]
    · obtain ⟨-, made, -, rfl⟩ := effect
      rfl
  case closeHandle => rw [effect]
  case clockNow | log => rw [effect.2]
  case freshId => rw [effect.2.2]
  case writeFile =>
    cases r with
    | none =>
        obtain ⟨-, bytes, rfl⟩ := effect
        exact Disk.overwrite_other _ _ _ other
    | some n => rw [effect.2.2, Disk.overwrite_other _ _ _ other]
  case remove =>
    cases r with
    | none => rw [effect.2]
    | some removed => simp [effect.2, other]
  case fileExists | iterate | lastWriteTime | readFile => cases r <;> rw [effect.2]

theorem effect_finite {op : FsOp P D} {s t : Disk P} {r : op.Res} (effect : W.Effect op s r t)
    (finite : {p | s.files p ≠ none}.Finite) : {p | t.files p ≠ none}.Finite := by
  refine (finite.union (List.finite_toSet (op.writes.map W.locate))).subset fun p found => ?_
  by_cases named : ∃ q ∈ op.writes, p = W.locate q
  · obtain ⟨q, isWritten, rfl⟩ := named
    exact .inr (List.mem_map.mpr ⟨q, isWritten, rfl⟩)
  · have same := effect_frame effect fun q isWritten here => named ⟨q, isWritten, here⟩
    rw [Set.mem_ofPred_eq, same] at found
    exact .inl found

theorem effect_readFile {p : P} {s t : Disk P} {raw : Bytes} {answer : Option Bytes}
    (reads : ¬ W.fails (.readFile p)) (holds : s.contents (W.locate p) = some raw) :
    W.Effect (.readFile p) s answer t ↔ answer = some raw ∧ t = s := by
  obtain ⟨file, found, rfl⟩ := Option.map_eq_some_iff.mp holds
  cases answer with
  | none => simp [Effect, Refuses, reads, found]
  | some answer => simp [Effect, reads, found]

theorem effect_drawn {op : FsOp P D} {s t : Disk P} {r : op.Res} (effect : W.Effect op s r t) :
    s.drawn ⊆ t.drawn := by
  cases op <;> simp only [Effect] at effect
  case createFile | flushFileBuffers | deleteFile =>
    split at effect
    · simp [effect]
    · simp [effect.2]
  case moveFileEx | rename =>
    split at effect
    · obtain ⟨f, -, rfl⟩ := effect
      exact List.Subset.refl _
    · simp [effect.2]
  case createDirectories =>
    split at effect
    · rw [effect]
      exact List.Subset.refl _
    · obtain ⟨-, made, -, rfl⟩ := effect
      exact List.Subset.refl _
  case closeHandle => simp [effect]
  case clockNow | log => simp [effect.2]
  case freshId => simp [effect.2.2]
  case writeFile =>
    cases r with
    | none =>
        obtain ⟨-, bytes, rfl⟩ := effect
        simp
    | some n => simp [effect.2.2]
  case fileExists | remove | iterate | lastWriteTime | readFile => cases r <;> simp [effect.2]

theorem effect_now {op : FsOp P D} {s t : Disk P} {r : op.Res} (effect : W.Effect op s r t) :
    t.now = s.now := by
  cases op <;> simp only [Effect] at effect
  case createFile | flushFileBuffers | deleteFile =>
    split at effect
    · simp [effect]
    · simp [effect.2]
  case moveFileEx | rename =>
    split at effect
    · obtain ⟨f, -, rfl⟩ := effect
      rfl
    · simp [effect.2]
  case createDirectories =>
    split at effect
    · simp [effect]
    · obtain ⟨-, made, -, rfl⟩ := effect
      rfl
  case closeHandle => rw [effect]
  case clockNow | log => rw [effect.2]
  case freshId => rw [effect.2.2]
  case writeFile p data =>
    cases r with
    | none =>
        obtain ⟨-, bytes, rfl⟩ := effect
        simp
    | some n => simp [effect.2.2]
  case fileExists | remove | iterate | lastWriteTime | readFile =>
    cases r <;> simp [effect.2]

theorem effect_dirs {op : FsOp P D} {s t : Disk P} {r : op.Res}
    (makes : ∀ p, op ≠ .createDirectories p) (effect : W.Effect op s r t) : t.dirs = s.dirs := by
  cases op <;> simp only [Effect] at effect
  case createFile | flushFileBuffers | deleteFile =>
    split at effect
    · simp [effect]
    · simp [effect.2]
  case moveFileEx | rename =>
    split at effect
    · obtain ⟨f, -, rfl⟩ := effect
      rfl
    · simp [effect.2]
  case createDirectories p => exact absurd rfl (makes p)
  case closeHandle => rw [effect]
  case clockNow | log => rw [effect.2]
  case freshId => rw [effect.2.2]
  case writeFile =>
    cases r with
    | none =>
        obtain ⟨-, bytes, rfl⟩ := effect
        simp
    | some n => simp [effect.2.2]
  case fileExists | remove | iterate | lastWriteTime | readFile => cases r <;> simp [effect.2]

end Platform

end EmailServer
