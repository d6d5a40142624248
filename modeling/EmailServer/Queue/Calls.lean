import EmailServer.Queue.Workers

/-! # Whole calls on the queue

Calls that run one after the other without interference, by any workers and at
any times. Such a trace is one of the interleavings of the workers' operations.
-/

namespace EmailServer.Queue

open QueueState

/-- A call that has returned. -/
structure Returned where
  time : Nat
  call : Call
  outcome : Outcome

/-- From one state to another by whole calls, latest first, and passing time. -/
inductive Trace {ι : Type} (W : Platform QueuePath QueueScan) :
    QueueState ι → List Returned → QueueState ι → Prop
  | start {s} : Trace W s [] s
  | call {s past t i call outcome u} : Trace W s past t →
      call.program.Runs (sem W i) t outcome u →
      Trace W s (⟨t.disk.now, call, outcome⟩ :: past) u
  | wait {s past t u} : Trace W s past t → Tick t u → Trace W s past u

section Calls

variable {ι : Type} {W : Platform QueuePath QueueScan} {i : ι} {s t u : QueueState ι}
  {past : List Returned}

theorem Trace.enqueued {sender recipient raw : Bytes} {result : Except Exn Bytes}
    (trace : Trace W s past t) (run : (enqueue sender recipient raw).Runs (sem W i) t result u) :
    Trace W s (⟨t.disk.now, .enqueue sender recipient raw, .enqueued result⟩ :: past) u :=
  .call trace (Prog.runs_map.mpr ⟨_, run, rfl⟩)

theorem Trace.fetched {result : Except Exn (Option QueueMessage)} (trace : Trace W s past t)
    (run : fetchReady.Runs (sem W i) t result u) :
    Trace W s (⟨t.disk.now, .fetchReady, .fetched result⟩ :: past) u :=
  .call trace (Prog.runs_map.mpr ⟨_, run, rfl⟩)

theorem Trace.markedTempFail {msg : QueueMessage} {result : Except Exn Unit}
    (trace : Trace W s past t) (run : (markTempFail msg).Runs (sem W i) t result u) :
    Trace W s (⟨t.disk.now, .markTempFail msg, .finished⟩ :: past) u :=
  .call trace (Prog.runs_map.mpr ⟨_, run, rfl⟩)

end Calls

theorem runs_now {ι α : Type} {W : Platform QueuePath QueueScan} {i : ι} {p : QueueProg α}
    {s t : QueueState ι} {a : α} (run : p.Runs (sem W i) s a t) : t.disk.now = s.disk.now := by
  induction p generalizing s with
  | pure value => rw [run.2]
  | step op next ih =>
      obtain ⟨r, mid, ⟨effect, -⟩, rest⟩ := run
      exact (ih r rest).trans (Platform.effect_now effect)

theorem Trace.now_le {ι : Type} {W : Platform QueuePath QueueScan} {s t : QueueState ι}
    {past : List Returned} (trace : Trace W s past t) :
    s.disk.now ≤ t.disk.now ∧ ∀ r ∈ past, r.time ≤ t.disk.now := by
  induction trace with
  | start => exact ⟨le_rfl, by simp⟩
  | call _ run ih =>
      rw [runs_now run]
      refine ⟨ih.1, ?_⟩
      intro r member
      rcases List.mem_cons.mp member with rfl | old
      · exact le_rfl
      · exact ih.2 r old
  | wait _ tick ih =>
      obtain ⟨later, past, rfl⟩ := tick
      exact ⟨ih.1.trans past, fun r member => (ih.2 r member).trans past⟩

/-- A trace is an interleaving in which no two calls overlap. -/
theorem Trace.steps {ι : Type} [DecidableEq ι] {s t : QueueState ι} {past : List Returned}
    (trace : Trace concurrent s past t) (returned : List (Call × Outcome)) :
    Relation.ReflTransGen QueueStep ⟨s, fun _ => none, returned⟩
      ⟨t, fun _ => none, past.map (fun r => (r.call, r.outcome)) ++ returned⟩ := by
  induction trace with
  | start => exact .refl
  | call _ run ih =>
      exact ih.trans (Pool.call_alone _ rfl ⟨_, rfl⟩ (Prog.runs_map.mpr ⟨_, run, rfl⟩))
  | wait _ tick ih => exact ih.tail (.around tick)

theorem Trace.reachable {ι : Type} [DecidableEq ι] {now : Nat} {t : QueueState ι}
    {past : List Returned} (trace : Trace concurrent (initial now) past t) :
    Reachable (⟨t, fun _ => none, past.map fun r => (r.call, r.outcome)⟩ : QueuePool ι) := by
  have steps := trace.steps []
  rw [List.append_nil] at steps
  exact ⟨now, steps⟩

/-! ## One message in the queue -/

section OneMessage

variable {ι : Type} {i : ι} {fails : FsOp QueuePath QueueScan → Prop}
  {lists : Disk QueuePath → QueueScan → List QueuePath → Prop}

/-- A disk with a single file. -/
def oneFile (p : QueuePath) (f : File) (now : Nat) (id : Bytes) : Disk QueuePath :=
  ⟨Function.update (fun _ => none) p (some f), fun _ => false, now, [id]⟩

theorem oneFile_move (p q : QueuePath) (f : File) (now : Nat) (id : Bytes) :
    (oneFile p f now id).move p q f = oneFile q f now id := by
  simp only [oneFile, Disk.move, Disk.put, Disk.clear, Function.update_idem]
  rw [Function.update_eq_self_iff.mpr rfl]

theorem oneFile_hit {p : QueuePath} {d : QueueScan} (covers : d.covers p) (f : File) (now : Nat)
    (id : Bytes) : exactScan (oneFile p f now id) d [p] := by
  refine ⟨by simp, ?_⟩
  intro q
  by_cases this : q = p
  · subst this
    simp [oneFile, covers]
  · simp [oneFile, this]

theorem oneFile_miss {p : QueuePath} {d : QueueScan} (misses : ¬ d.covers p) (f : File) (now : Nat)
    (id : Bytes) : exactScan (oneFile p f now id) d [] := by
  refine ⟨List.nodup_nil, ?_⟩
  intro q
  by_cases this : q = p
  · subst this
    simp [misses]
  · simp [oneFile, this]

/-- The queue with `content` under `id`, at `p`. -/
def oneMessage (i : ι) (p : QueuePath) (id content : Bytes) (written now : Nat) : QueueState ι where
  disk := oneFile p ⟨content, true, written⟩ now id
  owner := Function.update (fun _ => none) id (some i)
  published := Function.update (fun _ => none) id (some content)
  delivered _ := false

/-- The owner of `id` works on a disk without message files. -/
def preparing (i : ι) (id : Bytes) (disk : Disk QueuePath) : QueueState ι where
  disk := disk
  owner := Function.update (fun _ => none) id (some i)
  published _ := none
  delivered _ := false

theorem atomicWriteFile_first {id content : Bytes} (short : content.length < 2 ^ 32) (now : Nat) :
    (AtomicWrite.atomicWriteFile (tmpPath id) (msgPath .active id) content).Runs
      (sem (platform fails lists) i)
      (preparing i id ⟨fun _ => none, fun _ => false, now, [id]⟩) (.ok true)
      (oneMessage i (msgPath .active id) id content now now) := by
  let tmp (data : Bytes) (synced : Bool) : QueueState ι :=
    preparing i id (oneFile (tmpPath id) ⟨data, synced, now⟩ now id)
  have whole : content.take (content.length % 2 ^ 32) = content := by
    rw [Nat.mod_eq_of_lt short, List.take_length]
  rw [AtomicWrite.atomicWriteFile, whole]
  refine ⟨true, tmp [] false, ⟨rfl, rfl, rfl, rfl⟩, ?_⟩
  refine ⟨some content.length, tmp content false, ⟨⟨le_rfl, .inl rfl, ?_⟩, rfl, rfl, rfl⟩, ?_⟩
  · rw [List.take_length]
    simp [tmp, preparing, Disk.overwrite, oneFile, platform, Disk.put]
  dsimp only
  rw [if_neg (not_not.mpr rfl)]
  refine ⟨true, tmp content true, ⟨?_, rfl, rfl, rfl⟩, ?_⟩
  · simp [tmp, preparing, Platform.Effect, Disk.sync, oneFile, platform, Disk.put]
  refine ⟨(), tmp content true, ⟨rfl, rfl, rfl, rfl⟩, ?_⟩
  refine ⟨true, oneMessage i (msgPath .active id) id content now now, ⟨?_, rfl, ?_, rfl⟩, ?_⟩
  · exact ⟨⟨content, true, now⟩, by simp [tmp, preparing, oneFile, platform],
      (oneFile_move _ _ _ _ _).symm⟩
  · funext other
    by_cases this : other = id
    · subst this
      simp [oneMessage, publishedAfter, tmp, preparing, oneFile]
    · simp [oneMessage, publishedAfter, msgPath_inj, this, Ne.symm this, tmp, preparing]
  exact ⟨some true, _, ⟨⟨by simp [Disk.present, oneMessage, oneFile, platform], rfl⟩, rfl, rfl, rfl⟩,
    rfl, rfl⟩

theorem enqueue_first (exact : ∀ s d entries, exactScan s d entries → lists s d entries)
    {sender recipient raw : Bytes} (short : (enqueuedContent sender recipient raw).length < 2 ^ 32)
    (now ticks nonce : Nat) :
    (enqueue sender recipient raw).Runs (sem (platform fails lists) i) (initial now)
      (.ok (idText ticks nonce))
      (oneMessage i (msgPath .active (idText ticks nonce)) (idText ticks nonce)
        (enqueuedContent sender recipient raw) now now) := by
  have empty : exactScan (initial now : QueueState ι).disk (.directory .active) [] := by
    refine ⟨List.nodup_nil, ?_⟩
    intro p
    simp [initial]
  refine ⟨some [], initial now, ⟨⟨exact _ _ _ empty, rfl⟩, rfl, rfl, rfl⟩, ?_⟩
  refine ⟨idText ticks nonce, preparing i (idText ticks nonce) _,
    ⟨⟨⟨ticks, nonce, rfl⟩, by simp [initial], rfl⟩, rfl, rfl, rfl⟩, ?_⟩
  exact Prog.runs_bind.mpr ⟨.ok true, _, atomicWriteFile_first short now, rfl, rfl⟩

variable {j : ι} {id content : Bytes} {written now : Nat}

/-- An exact scan is one that interleaved workers may see. -/
theorem exactScan_covers (s : Disk QueuePath) (d : QueueScan) (entries : List QueuePath)
    (exact : exactScan s d entries) : ∀ p ∈ entries, d.covers p :=
  fun p member => ((exact.2 p).mp member).2

theorem rename_one (p q : QueuePath) :
    sem (platform fails lists) j (.rename p q) (oneMessage i p id content written now) true
      (oneMessage i q id content written now) :=
  ⟨⟨⟨content, true, written⟩, by simp [oneMessage, oneFile, platform],
    (oneFile_move _ _ _ _ _).symm⟩, rfl, rfl, rfl⟩

theorem leaseFirst_one (nonempty : id ≠ []) (hasContent : content ≠ []) :
    (leaseFirst [msgPath .active id]).Runs (sem (platform fails lists) j)
      (oneMessage i (msgPath .active id) id content written now)
      (some (parseMessage id content))
      (oneMessage i (msgPath .inflight id) id content written now) := by
  rw [leaseFirst, if_pos (isMsg_msgPath .active nonempty)]
  refine ⟨some false, _, ⟨⟨?_, rfl⟩, rfl, rfl, rfl⟩, true, _, rename_one _ _,
    some true, _, ⟨⟨?_, rfl⟩, rfl, rfl, rfl⟩, ?_⟩
  · simp [Disk.present, oneMessage, oneFile, platform, msgPath]
  · simp [Disk.present, oneMessage, oneFile, platform, msgPath]
  refine ⟨some content, _, ⟨⟨⟨⟨content, true, written⟩, ?_, .inl rfl⟩, rfl⟩, rfl, rfl, rfl⟩, ?_⟩
  · simp [oneMessage, oneFile, platform, msgPath]
  · cases content with
    | nil => exact absurd rfl hasContent
    | cons c rest => exact ⟨by rw [show FileName.stem (msgPath .active id).name = id from
        msgName_stem nonempty], rfl⟩

theorem fetchReady_waiting (exact : ∀ s d entries, exactScan s d entries → lists s d entries)
    (nonempty : id ≠ []) (hasContent : content ≠ []) :
    fetchReady.Runs (sem (platform fails lists) j)
      (oneMessage i (msgPath .active id) id content written now)
      (.ok (some (parseMessage id content)))
      (oneMessage i (msgPath .inflight id) id content written now) := by
  refine ⟨some [], _, ⟨⟨exact _ _ _ (oneFile_miss ?_ _ _ _), rfl⟩, rfl, rfl, rfl⟩, ?_⟩
  · simp [QueueScan.covers, msgPath]
  refine ⟨some [msgPath .active id], _,
    ⟨⟨exact _ _ _ (oneFile_hit ?_ _ _ _), rfl⟩, rfl, rfl, rfl⟩, ?_⟩
  · simp [QueueScan.covers, msgPath]
  exact Prog.runs_map.mpr ⟨_, leaseFirst_one nonempty hasContent, rfl⟩

theorem isLeaseExpired_one {p : QueuePath} {expired : Bool}
    (age : decide (now > written + LEASE_TIMEOUT_SEC * ticksPerSecond) = expired) :
    (isLeaseExpired p).Runs (sem (platform fails lists) j)
      (oneMessage i p id content written now) (.ok expired)
      (oneMessage i p id content written now) := by
  refine ⟨some written, _, ⟨⟨⟨⟨content, true, written⟩, ?_, rfl⟩, rfl⟩, rfl, rfl, rfl⟩,
    now, _, ⟨⟨rfl, rfl⟩, rfl, rfl, rfl⟩, ?_, rfl⟩
  · simp [oneMessage, oneFile, platform]
  · rw [age]

/-- While its lease runs, a leased message stays where it is. -/
theorem fetchReady_running (exact : ∀ s d entries, exactScan s d entries → lists s d entries)
    (nonempty : id ≠ []) (young : now ≤ written + LEASE_TIMEOUT_SEC * ticksPerSecond) :
    fetchReady.Runs (sem (platform fails lists) j)
      (oneMessage i (msgPath .inflight id) id content written now) (.ok none)
      (oneMessage i (msgPath .inflight id) id content written now) := by
  refine ⟨some [msgPath .inflight id], _,
    ⟨⟨exact _ _ _ (oneFile_hit ?_ _ _ _), rfl⟩, rfl, rfl, rfl⟩, ?_⟩
  · simp [QueueScan.covers, msgPath]
  refine Prog.runs_bind.mpr ⟨.ok (), _, ?_, some [], _,
    ⟨⟨exact _ _ _ (oneFile_miss ?_ _ _ _), rfl⟩, rfl, rfl, rfl⟩, rfl, rfl⟩
  · rw [reclaimExpired, if_pos (isMsg_msgPath .inflight nonempty)]
    have age : decide (now > written + LEASE_TIMEOUT_SEC * ticksPerSecond) = false :=
      decide_eq_false (Nat.not_lt.mpr young)
    exact Prog.runs_bind.mpr ⟨.ok false, _, isLeaseExpired_one age, rfl, rfl⟩
  · simp [QueueScan.covers, msgPath]

theorem fetchReady_expired (exact : ∀ s d entries, exactScan s d entries → lists s d entries)
    (nonempty : id ≠ []) (hasContent : content ≠ [])
    (old : written + LEASE_TIMEOUT_SEC * ticksPerSecond < now) :
    fetchReady.Runs (sem (platform fails lists) j)
      (oneMessage i (msgPath .inflight id) id content written now)
      (.ok (some (parseMessage id content)))
      (oneMessage i (msgPath .inflight id) id content written now) := by
  refine ⟨some [msgPath .inflight id], _,
    ⟨⟨exact _ _ _ (oneFile_hit ?_ _ _ _), rfl⟩, rfl, rfl, rfl⟩, ?_⟩
  · simp [QueueScan.covers, msgPath]
  refine Prog.runs_bind.mpr ⟨.ok (), oneMessage i (msgPath .active id) id content written now, ?_, ?_⟩
  · rw [reclaimExpired, if_pos (isMsg_msgPath .inflight nonempty)]
    have age : decide (now > written + LEASE_TIMEOUT_SEC * ticksPerSecond) = true :=
      decide_eq_true old
    exact Prog.runs_bind.mpr ⟨.ok true, _, isLeaseExpired_one age, true, _, rename_one _ _, rfl, rfl⟩
  refine ⟨some [msgPath .active id], _,
    ⟨⟨exact _ _ _ (oneFile_hit ?_ _ _ _), rfl⟩, rfl, rfl, rfl⟩, ?_⟩
  · simp [QueueScan.covers, msgPath]
  exact Prog.runs_map.mpr ⟨_, leaseFirst_one nonempty hasContent, rfl⟩

theorem markTempFail_one :
    (markTempFail (parseMessage id content)).Runs (sem (platform fails lists) j)
      (oneMessage i (msgPath .inflight id) id content written now) (.ok ())
      (oneMessage i (msgPath .failure id) id content written now) :=
  ⟨true, _, rename_one _ _, rfl, rfl⟩

end OneMessage

end EmailServer.Queue
