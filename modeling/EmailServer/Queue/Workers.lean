import EmailServer.Library.Interleaving
import EmailServer.Queue.RetryWorker

/-! # Workers on a shared queue

The state the workers share: the disk, and three records of its history that
no code reads. An id has an owner from the moment it was drawn, a content from
the moment its file appeared in `active`, and is delivered from the moment its
file was removed from `inflight`.
-/

namespace EmailServer.Queue

/-- The platform of the queue: what may fail and what a scan reports is open. -/
def platform (fails : FsOp QueuePath QueueScan → Prop)
    (lists : Disk QueuePath → QueueScan → List QueuePath → Prop) :
    Platform QueuePath QueueScan where
  locate p := p
  chain p := [p]
  fails := fails
  lists := lists
  draws _ id := ∃ ticks nonce, id = idText ticks nonce

/-- The files a scan looks at. -/
def QueueScan.covers : QueueScan → QueuePath → Prop
  | .directory dir, p => p.dir = dir
  | .recursive, _ => True

/-- Everything may fail. A scan is not atomic: it may report any files of its
    directory, whether or not they are there at the same time. -/
def concurrent : Platform QueuePath QueueScan :=
  platform (fun _ => True) fun _ d entries => ∀ p ∈ entries, d.covers p

/-- Undisturbed scans report every file of the directory once, in any order. -/
def exactScan (s : Disk QueuePath) (d : QueueScan) (entries : List QueuePath) : Prop :=
  entries.Nodup ∧ ∀ p, p ∈ entries ↔ s.files p ≠ none ∧ d.covers p

structure QueueState (ι : Type) where
  disk : Disk QueuePath
  owner : Bytes → Option ι
  published : Bytes → Option Bytes
  delivered : Bytes → Bool

namespace QueueState

variable {ι : Type}

def ownerAfter (s : QueueState ι) (i : ι) : (op : FsOp QueuePath QueueScan) → op.Res →
    Bytes → Option ι
  | .freshId, id => Function.update s.owner id (some i)
  | _, _ => s.owner

def publishedAfter (s : QueueState ι) : (op : FsOp QueuePath QueueScan) → op.Res →
    Bytes → Option Bytes
  | .moveFileEx src dst, true => fun id =>
      if dst = msgPath .active id then (s.disk.files src).map File.data else s.published id
  | _, _ => s.published

def deliveredAfter (s : QueueState ι) : (op : FsOp QueuePath QueueScan) → op.Res →
    Bytes → Bool
  | .remove p, some true => fun id => s.delivered id || decide (p = msgPath .inflight id)
  | _, _ => s.delivered

/-- A step of worker `i`. -/
def sem (W : Platform QueuePath QueueScan) (i : ι) :
    Sem (FsOp QueuePath QueueScan) FsOp.Res (QueueState ι) := fun op s r t =>
  W.Effect op s.disk r t.disk ∧ t.owner = s.ownerAfter i op r ∧
    t.published = s.publishedAfter op r ∧ t.delivered = s.deliveredAfter op r

/-- Time passes. -/
def Tick (s t : QueueState ι) : Prop :=
  ∃ later, s.disk.now ≤ later ∧ t = { s with disk := { s.disk with now := later } }

/-- No file of the queue carries the id. -/
def Absent (s : QueueState ι) (id : Bytes) : Prop := ∀ dir, s.disk.files (msgPath dir id) = none

/-- Exactly one of the four directories has the message, with this content. -/
def Holds (s : QueueState ι) (id content : Bytes) : Prop :=
  ∃ dir f, s.disk.files (msgPath dir id) = some f ∧ f.data = content ∧
    ∀ other, other ≠ dir → s.disk.files (msgPath other id) = none

/-- The queue of a first start. -/
def initial (now : Nat) : QueueState ι where
  disk := ⟨fun _ => none, fun _ => false, now, []⟩
  owner _ := none
  published _ := none
  delivered _ := false

/-- The invariant of the queue. -/
structure Valid (s : QueueState ι) : Prop where
  held : ∀ id content, s.published id = some content → s.delivered id = false → s.Holds id content
  gone : ∀ id, s.published id = none ∨ s.delivered id = true → s.Absent id
  drawn : ∀ id, id ∈ s.disk.drawn ↔ s.owner id ≠ none
  owned : ∀ id, s.published id ≠ none → s.owner id ≠ none
  named : ∀ id, s.owner id ≠ none → id ≠ []
  sent : ∀ id, s.delivered id = true → s.published id ≠ none

/-- What worker `i` may rely on about the ids it drew: nobody else publishes
    them, and nobody writes their temporary file, though it may disappear. -/
def Rely (i : ι) (s t : QueueState ι) : Prop :=
  ∀ id, s.owner id = some i → t.owner id = some i ∧ t.published id = s.published id ∧
    (t.disk.files (tmpPath id) = s.disk.files (tmpPath id) ∨ t.disk.files (tmpPath id) = none)

/-- What is published stays published with its content, and delivered stays delivered. -/
structure Grows (s t : QueueState ι) : Prop where
  published : ∀ id content, s.published id = some content → t.published id = some content
  delivered : ∀ id, s.delivered id = true → t.delivered id = true

theorem Rely.refl (i : ι) (s : QueueState ι) : Rely i s s :=
  fun _ mine => ⟨mine, rfl, .inl rfl⟩

theorem Rely.trans {i : ι} {s t u : QueueState ι} (first : Rely i s t) (second : Rely i t u) :
    Rely i s u := by
  intro id mine
  obtain ⟨mineT, publishedT, tmpT⟩ := first id mine
  obtain ⟨mineU, publishedU, tmpU⟩ := second id mineT
  refine ⟨mineU, publishedU.trans publishedT, ?_⟩
  rcases tmpU with same | gone
  · rw [same]
    exact tmpT
  · exact .inr gone

theorem Grows.refl (s : QueueState ι) : Grows s s := ⟨fun _ _ h => h, fun _ h => h⟩

theorem Grows.trans {s t u : QueueState ι} (first : Grows s t) (second : Grows t u) : Grows s u :=
  ⟨fun id content h => second.published id content (first.published id content h),
    fun id h => second.delivered id (first.delivered id h)⟩

/-- The discipline of the queue's workers. -/
def discipline (W : Platform QueuePath QueueScan) :
    Discipline ι (FsOp QueuePath QueueScan) FsOp.Res (QueueState ι) where
  sem := sem W
  valid := Valid
  rely := Rely
  grows := Grows
  rely_refl := Rely.refl
  rely_trans _ _ _ _ := Rely.trans

theorem initial_valid (now : Nat) : (initial now : QueueState ι).Valid where
  held _ _ published := by simp [initial] at published
  gone _ _ := fun _ => rfl
  drawn _ := by simp [initial]
  owned _ h := absurd rfl h
  named _ h := absurd rfl h
  sent _ h := by simp [initial] at h

end QueueState

/-! ## The system -/

/-- A call together with the outcome it returns. -/
def callProgram (call : Call) : QueueProg (Call × Outcome) := call.program.map (call, ·)

/-- The programs workers run. -/
def IsCall (p : QueueProg (Call × Outcome)) : Prop := ∃ call, p = callProgram call

/-- Workers and starting processes on one queue, from an empty queue on. -/
abbrev QueuePool (ι : Type) :=
  Pool ι (FsOp QueuePath QueueScan) FsOp.Res (Call × Outcome) (QueueState ι)

/-- One file operation of a worker, the start, end or death of a call, or time. -/
abbrev QueueStep {ι : Type} [DecidableEq ι] : QueuePool ι → QueuePool ι → Prop :=
  Pool.Step (QueueState.sem concurrent) IsCall QueueState.Tick

/-- The pools that any interleaving of calls reaches. -/
def Reachable {ι : Type} [DecidableEq ι] (pool : QueuePool ι) : Prop :=
  ∃ now, Relation.ReflTransGen QueueStep (Pool.start (QueueState.initial now)) pool

/-! ## Names -/

theorem msgName_injective {a b : Bytes} (same : msgName a = msgName b) : a = b :=
  List.append_cancel_right same

theorem msgPath_inj {dir dir' : QueueDir} {a b : Bytes} :
    msgPath dir a = msgPath dir' b ↔ dir = dir' ∧ a = b := by
  simp only [msgPath, QueuePath.mk.injEq]
  exact and_congr_right fun _ => ⟨msgName_injective, fun h => h ▸ rfl⟩

theorem tmpPath_injective {a b : Bytes} (same : tmpPath a = tmpPath b) : a = b := by
  simp only [tmpPath, tmpName, QueuePath.mk.injEq, true_and] at same
  exact msgName_injective (List.append_cancel_right same)

theorem ending_ne (a b : Bytes) : a ++ ascii ".msg" ≠ b ++ ascii ".tmp" := by
  intro same
  have ends := (List.append_inj' same (by decide)).2
  exact absurd ends (by decide)

theorem msgPath_ne_tmpPath (dir : QueueDir) (a b : Bytes) : msgPath dir a ≠ tmpPath b := by
  intro same
  exact ending_ne a (msgName b) (congrArg QueuePath.name same)

theorem isMsg_name {p : QueuePath} (h : isMsg p = true) :
    p.name = msgName (FileName.stem p.name) := by
  have ext : FileName.extension p.name = ascii ".msg" := by simpa [isMsg] using h
  rw [msgName, ← ext, FileName.stem_extension]

theorem isTmp_ne_msgPath {p : QueuePath} (h : isTmp p = true) (dir : QueueDir) (id : Bytes) :
    p ≠ msgPath dir id := by
  rintro rfl
  have ext : FileName.extension (msgName id) = ascii ".tmp" := by simpa [isTmp, msgPath] using h
  have whole := FileName.stem_extension (msgName id)
  rw [ext] at whole
  exact ending_ne id _ whole.symm

theorem msgName_stem {id : Bytes} (nonempty : id ≠ []) : FileName.stem (msgName id) = id :=
  FileName.stem_append (ascii "msg") nonempty (by decide) (by decide)

theorem isMsg_msgPath (dir : QueueDir) {id : Bytes} (nonempty : id ≠ []) :
    isMsg (msgPath dir id) = true := by
  have ext := FileName.extension_append (ascii "msg") nonempty (by decide) (by decide)
  have : FileName.extension (msgName id) = ascii ".msg" := ext
  simp [isMsg, msgPath, this]

theorem idText_ne_nil (ticks nonce : Nat) : idText ticks nonce ≠ [] := by
  simp [idText, toDecimal_ne_nil]

end EmailServer.Queue
