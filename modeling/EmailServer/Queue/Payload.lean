import EmailServer.Queue.Conservation

/-! # What a leased message holds

`enqueue` writes two envelope lines and a marker in front of the message, and
`fetchReady` hands out the file as a whole: it finds the two lines again, but
leaves them and the marker in front of the data.

A read that fails halfway is not noticed by the code, so reads are taken to
succeed here. Everything else may fail.
-/

namespace EmailServer.Queue

open QueueState

/-- Reads give what the file holds; every other operation may fail, and scans
    may report any files of their directory. -/
def reading : Platform QueuePath QueueScan :=
  platform (fun op => ∀ p, op ≠ .readFile p) fun _ d entries => ∀ p ∈ entries, d.covers p

/-- The pools that any interleaving of calls reaches while reads succeed. -/
def ReachableReading {ι : Type} [DecidableEq ι] (pool : QueuePool ι) : Prop :=
  ∃ now, Relation.ReflTransGen (Pool.Step (QueueState.sem reading) IsCall Tick)
    (Pool.start (initial now)) pool

/-- The message a worker fetched after `enqueue` had returned its id is the
    message that was enqueued, in every interleaving. -/
def DeliversUnchanged (ι : Type) [DecidableEq ι] (sender recipient raw : Bytes) : Prop :=
  ∀ pool : QueuePool ι, ReachableReading pool → ∀ newer older id call msg,
    pool.returned = newer ++ (.enqueue sender recipient raw, .enqueued (.ok id)) :: older →
    (call, Outcome.fetched (.ok (some msg))) ∈ newer → msg.id = id → msg.rawData = raw

section Safety

variable {ι : Type} {i : ι} {fails : FsOp QueuePath QueueScan → Prop}
  {lists : Disk QueuePath → QueueScan → List QueuePath → Prop} {s : QueueState ι}

/-- The queue's discipline, in which the threads also rely on what is published. -/
def published (W : Platform QueuePath QueueScan) :
    Discipline ι (FsOp QueuePath QueueScan) FsOp.Res (QueueState ι) :=
  (discipline W).growing Grows.refl fun _ _ _ => Grows.trans

/-- What is fetched is the content published under its id. -/
abbrev Fetched (fetched : Option QueueMessage) (t : QueueState ι) : Prop :=
  ∀ msg, fetched = some msg → t.published msg.id = some msg.rawData

theorem shuffled {op : FsOp QueuePath QueueScan} {t : QueueState ι} {r : op.Res} (valid : s.Valid)
    (step : QueueState.sem (platform fails lists) i op s r t) (shuffles : Shuffles op) :
    (published (platform fails lists)).Accepts i s t :=
  (shuffle_accepted shuffles valid step).growing

theorem uses_safe {α : Type} {p : QueueProg α} (uses : p.Uses Shuffles) :
    (published (platform fails lists)).Safe i (fun _ _ => True) p s :=
  Discipline.Safe.of_uses uses (fun _ _ _ _ shuffles valid step => shuffled valid step shuffles)
    fun _ _ _ => trivial

theorem leaseFirst_safe (reads : ∀ p, ¬ fails (.readFile p)) (entries : List QueuePath) :
    (published (platform fails lists)).Safe i Fetched (leaseFirst entries) s := by
  induction entries generalizing s with
  | nil => exact fun _ _ _ msg none_ => by cases none_
  | cons f rest ih =>
      unfold leaseFirst
      split
      · rename_i named
        intro t kept _ there u step
        refine ⟨shuffled kept step trivial, ?_⟩
        rcases there with _ | _ | _
        · exact ih
        · intro t kept _ leased u step
          refine ⟨shuffled kept step (shuffles_rename named f.dir .inflight), ?_⟩
          cases leased with
          | false => exact ih
          | true =>
              intro t kept _ verified u step
              refine ⟨shuffled kept step trivial, ?_⟩
              rcases verified with _ | _ | _
              · exact ih
              · exact ih
              · intro t kept _ raw u step
                refine ⟨shuffled kept step trivial, ?_⟩
                rcases raw with _ | _ | ⟨c, rest⟩
                · intro t kept _ _ u step
                  exact ⟨shuffled kept step (shuffles_rename named .inflight f.dir), ih⟩
                · intro t kept _ _ u step
                  exact ⟨shuffled kept step (shuffles_rename named .inflight .permanentFail), ih⟩
                · -- what was read is the published content
                  obtain ⟨⟨⟨g, found, whole⟩, -⟩, -, same, -⟩ := step
                  have same : u.published = t.published := same
                  have data : c :: rest = g.data := whole.resolve_right (reads _)
                  have path := isMsg_path named .inflight
                  have found : t.disk.files (msgPath .inflight (FileName.stem f.name)) = some g :=
                    path ▸ found
                  have content := (kept.alive found).1
                  intro w _ others msg fetched
                  cases fetched
                  refine others.2.published _ _ ?_
                  rw [same, parseMessage, content, data]
        · exact ih
      · exact ih

/-- `fetchReady` and `runOnce` return what is published. -/
abbrev Returned.Published (r : Except Exn (Option QueueMessage)) (t : QueueState ι) : Prop :=
  ∀ msg, r = .ok (some msg) → t.published msg.id = some msg.rawData

theorem fetchReady_safe (reads : ∀ p, ¬ fails (.readFile p)) :
    (published (platform fails lists)).Safe i Returned.Published fetchReady s := by
  intro t kept _ leased u step
  have accepted := shuffled kept step trivial
  refine ⟨accepted, ?_⟩
  cases leased with
  | none => exact fun _ _ _ _ same => by cases same
  | some leased =>
      refine (uses_safe (reclaimExpired_uses leased)).bind (fun reclaimed v _ _ => ?_) accepted.1
      match reclaimed with
      | .error _ => exact fun _ _ _ _ same => by cases same
      | .ok () =>
        intro t kept _ ready w step
        refine ⟨shuffled kept step trivial, ?_⟩
        cases ready with
        | none => exact fun _ _ _ _ same => by cases same
        | some ready =>
            refine (leaseFirst_safe reads ready).map fun fetched _ holds msg same => ?_
            exact holds msg (Except.ok.inj same)

theorem runOnce_safe (reads : ∀ p, ¬ fails (.readFile p)) (valid : s.Valid) (deliver : Deliver)
    (logs : PassLogs) :
    (published (platform fails lists)).Safe i Returned.Published (runOnce deliver logs) s := by
  refine (fetchReady_safe reads).bind (fun fetched t _ holds => ?_) valid
  match fetched with
  | .error _ | .ok none => exact fun _ _ _ _ same => by cases same
  | .ok (some msg) =>
    refine ((uses_safe (process_uses deliver logs msg)).grown (Grows.refl t)).map fun marked u kept msg' same => ?_
    cases marked with
    | error e => cases same
    | ok _ =>
        cases same
        exact kept.2.published _ _ (holds msg rfl)

theorem unguarded_step {α : Type} {W : Platform QueuePath QueueScan}
    {op : FsOp QueuePath QueueScan} {next : op.Res → QueueProg α} {post : α → QueueState ι → Prop}
    (each : ∀ r t u, QueueState.sem W i op t r u →
      (Discipline.unguarded (QueueState.sem W)).Safe i post (next r) u) :
    (Discipline.unguarded (QueueState.sem W)).Safe i post (.step op next) s :=
  fun t _ _ r u step => ⟨Discipline.unguarded_accepts, each r t u step⟩

/-- `WriteFile` is told the length modulo 2 ^ 32, so that a longer content is
    never written as a whole. -/
theorem atomicWriteFile_short (W : Platform QueuePath QueueScan) (tempPath path : QueuePath)
    (content : Bytes) :
    (Discipline.unguarded (QueueState.sem W)).Safe i
      (fun r _ => r = .ok true → content.length < 2 ^ 32)
      (AtomicWrite.atomicWriteFile tempPath path content) s := by
  refine unguarded_step fun created _ _ _ => ?_
  cases created with
  | false => exact fun _ _ _ same => by cases same
  | true =>
  refine unguarded_step fun bytesWritten t u step => ?_
  split
  · exact unguarded_step fun _ _ _ _ => unguarded_step fun _ _ _ _ => fun _ _ _ same => by cases same
  rename_i full
  -- the count fits into the length that was passed
  have short : content.length < 2 ^ 32 := by
    obtain rfl : bytesWritten = some content.length := not_not.mp full
    have within := step.1.1
    have : content.length % 2 ^ 32 < 2 ^ 32 := Nat.mod_lt _ (by decide)
    rw [List.length_take] at within
    omega
  exact .unguarded fun _ _ _ => short

theorem enqueue_short (W : Platform QueuePath QueueScan) (sender recipient raw : Bytes) :
    (Discipline.unguarded (QueueState.sem W)).Safe i
      (fun r _ => ∀ id, r = .ok id → (enqueuedContent sender recipient raw).length < 2 ^ 32)
      (enqueue sender recipient raw) s := by
  refine unguarded_step fun entries _ _ _ => ?_
  cases entries with
  | none => exact fun _ _ _ _ same => by cases same
  | some entries =>
      dsimp only
      split
      · exact fun _ _ _ _ same => by cases same
      refine unguarded_step fun id _ _ _ => ?_
      refine (atomicWriteFile_short W _ _ _).bind (fun r _ _ short => ?_) trivial
      match r with
      | .error _ | .ok false => exact fun _ _ _ _ same => by cases same
      | .ok true => exact fun _ _ _ _ _ => short rfl

/-- What a finished call has established. -/
def Kept (result : Call × Outcome) (t : QueueState ι) : Prop :=
  match result.2, result.1 with
  | .enqueued (.ok id), .enqueue sender recipient raw =>
      t.published id = some (enqueuedContent sender recipient raw) ∧
        (enqueuedContent sender recipient raw).length < 2 ^ 32
  | .fetched r, _ => Returned.Published r t
  | _, _ => True

theorem call_kept (reads : ∀ p, ¬ fails (.readFile p)) (valid : s.Valid) (call : Call) :
    (published (platform fails lists)).Safe i Kept (callProgram call) s := by
  suffices ends : (published (platform fails lists)).Safe i (fun out => Kept (call, out))
      call.program s from ends.map fun _ _ h => h
  cases call with
  | enqueue sender recipient raw =>
      have safe : (published (platform fails lists)).Safe i (Enqueued sender recipient raw)
          (enqueue sender recipient raw) s := (enqueue_safe sender recipient raw).growing
      refine (safe.both (enqueue_short _ sender recipient raw) rfl (fun _ _ => trivial)
        fun _ _ _ => trivial).map fun r t known => ?_
      cases r with
      | error e => trivial
      | ok id => exact ⟨known.1 id rfl, known.2 id rfl⟩
  | fetchReady => exact (fetchReady_safe reads).map fun _ _ known => known
  | runOnce deliver logs => exact (runOnce_safe reads valid deliver logs).map fun _ _ known => known
  | markSuccess id => exact (uses_safe (markSuccess_uses id)).map fun _ _ _ => trivial
  | markTempFail msg => exact (uses_safe (markFail_uses .failure msg)).map fun _ _ _ => trivial
  | markPermFail msg => exact (uses_safe (markFail_uses .permanentFail msg)).map fun _ _ _ => trivial
  | recoverOrphanedTempFiles => exact (uses_safe recover_uses).map fun _ _ _ => trivial

theorem kept_lasting (result : Call × Outcome) {t : QueueState ι} (grown : Grows s t)
    (kept : Kept result s) : Kept result t := by
  unfold Kept at kept ⊢
  split at kept
  · exact ⟨grown.published _ _ kept.1, kept.2⟩
  · exact fun msg same => grown.published _ _ (kept msg same)
  · trivial

end Safety

section System

variable {ι : Type} [DecidableEq ι]

theorem reachable_kept {pool : QueuePool ι} (reached : ReachableReading pool) :
    Pool.Consistent (published reading) Kept pool := by
  obtain ⟨now, steps⟩ := reached
  refine Pool.consistent ⟨?_, ?_, fun _ _ _ => kept_lasting _⟩ steps
    (Pool.start_consistent (initial_valid now))
  · rintro i _ s ⟨call, rfl⟩ valid
    exact call_kept (fun p different => different p rfl) valid call
  · rintro s _ ⟨later, past, rfl⟩ valid
    have same : SameHistory s { s with disk := { s.disk with now := later } } :=
      ⟨rfl, rfl, rfl, rfl⟩
    exact ⟨valid.untouched same fun _ _ => rfl, same.grows,
      fun i => ⟨same.rely (fun _ => .inl rfl) i, same.grows⟩⟩

theorem fetched_enqueued {pool : QueuePool ι} (reached : ReachableReading pool)
    {sender recipient raw id : Bytes} {call : Call} {msg : QueueMessage}
    (enqueued : (Call.enqueue sender recipient raw, Outcome.enqueued (.ok id)) ∈ pool.returned)
    (fetched : (call, Outcome.fetched (.ok (some msg))) ∈ pool.returned) (same : msg.id = id) :
    msg.rawData = enqueuedContent sender recipient raw ∧
      (enqueuedContent sender recipient raw).length < 2 ^ 32 := by
  have kept := reachable_kept reached
  obtain ⟨content, short⟩ := kept.returned _ enqueued
  have leased : Returned.Published (.ok (some msg)) pool.shared := kept.returned _ fetched
  have data := leased msg rfl
  rw [same, content] at data
  exact ⟨(Option.some.inj data).symm, short⟩

theorem leases_enqueued [Inhabited ι] {sender recipient raw : Bytes}
    (short : (enqueuedContent sender recipient raw).length < 2 ^ 32) :
    ∃ pool : QueuePool ι, ReachableReading pool ∧
      pool.returned = [(.fetchReady, .fetched (.ok (some (parseMessage (idText 0 0)
          (enqueuedContent sender recipient raw))))),
        (.enqueue sender recipient raw, .enqueued (.ok (idText 0 0)))] := by
  have nonempty : enqueuedContent sender recipient raw ≠ [] := by
    intro nothing
    have marker : ascii "---RAW---\n" ≠ [] := by decide
    simp [enqueuedContent, marker] at nothing
  have enqueued : (enqueue sender recipient raw).Runs (sem reading (default : ι)) (initial 0)
      (.ok (idText 0 0)) (oneMessage default (msgPath .active (idText 0 0)) (idText 0 0)
        (enqueuedContent sender recipient raw) 0 0) := enqueue_first exactScan_covers short 0 0 0
  have fetched : fetchReady.Runs (sem reading (default : ι))
      (oneMessage default (msgPath .active (idText 0 0)) (idText 0 0)
        (enqueuedContent sender recipient raw) 0 0) _ _ :=
    fetchReady_waiting exactScan_covers (idText_ne_nil 0 0) nonempty
  have first : Relation.ReflTransGen (Pool.Step (sem reading) IsCall Tick)
      (Pool.start (initial 0)) _ := Pool.call_alone _ rfl ⟨.enqueue sender recipient raw, rfl⟩
    (Prog.runs_map.mpr ⟨_, Prog.runs_map.mpr ⟨_, enqueued, rfl⟩, rfl⟩)
  refine ⟨_, ⟨0, first.trans (Pool.call_alone _ rfl ⟨.fetchReady, rfl⟩
    (Prog.runs_map.mpr ⟨_, Prog.runs_map.mpr ⟨_, fetched, rfl⟩, rfl⟩))⟩, rfl⟩

/-- A message that can be enqueued is handed out as another one. -/
theorem not_deliversUnchanged [Inhabited ι] {sender recipient raw : Bytes}
    (short : (enqueuedContent sender recipient raw).length < 2 ^ 32) :
    ¬ DeliversUnchanged ι sender recipient raw := by
  intro unchanged
  obtain ⟨pool, reached, returned⟩ := leases_enqueued (ι := ι) short
  have same := unchanged pool reached [_] [] _ _ _ returned (List.mem_singleton_self _) rfl
  have longer : (enqueuedContent sender recipient raw).length = raw.length :=
    congrArg List.length same
  have marker : 0 < (ascii "TO: ").length := by decide
  simp only [enqueuedContent, List.length_append] at longer
  omega

/-- The message handed out is the message enqueued exactly when it is too long
    to be enqueued at all. -/
theorem delivers_unchanged_iff (ι : Type) [DecidableEq ι] [Inhabited ι]
    (sender recipient raw : Bytes) :
    DeliversUnchanged ι sender recipient raw ↔
      2 ^ 32 ≤ (enqueuedContent sender recipient raw).length := by
  constructor
  · intro unchanged
    exact Nat.not_lt.mp fun short => not_deliversUnchanged short unchanged
  · intro long pool reached newer older id call msg returned member same
    have enqueued : (Call.enqueue sender recipient raw, Outcome.enqueued (.ok id)) ∈
        pool.returned := by simp [returned]
    have fetched : (call, Outcome.fetched (.ok (some msg))) ∈ pool.returned := by
      simp [returned, member]
    have short := (fetched_enqueued reached enqueued fetched same).2
    exact absurd long (Nat.not_le.mpr short)

end System

/-- The two lines and the marker become the head of the message. -/
theorem envelope_delivered :
    Bytes.lf ∉ ascii "a@x" ∧ Bytes.lf ∉ ascii "b@y" ∧
      ¬ DeliversUnchanged Unit (ascii "a@x") (ascii "b@y") (ascii "hi") :=
  ⟨by decide, by decide, not_deliversUnchanged (by decide)⟩

end EmailServer.Queue
