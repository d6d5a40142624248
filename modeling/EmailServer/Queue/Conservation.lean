import Mathlib.Data.List.Nodup
import EmailServer.Queue.Calls

/-! # No message is lost or duplicated on disk

Every operation the queue performs either leaves the message files alone, moves
one of them to another directory, publishes the file of a fresh id, or removes
a file from `inflight`. Each of these keeps the invariant, in any interleaving.
-/

namespace EmailServer.Queue

open QueueState

namespace QueueState

variable {ι : Type} {s t : QueueState ι} {i : ι}

/-- The three records are untouched. -/
structure SameHistory (s t : QueueState ι) : Prop where
  owner : t.owner = s.owner
  published : t.published = s.published
  delivered : t.delivered = s.delivered
  drawn : t.disk.drawn = s.disk.drawn

theorem SameHistory.grows (same : SameHistory s t) : Grows s t :=
  ⟨fun id content h => by rw [same.published]; exact h, fun id h => by rw [same.delivered]; exact h⟩

/-- What the invariant says about one id. -/
structure ValidAt (s : QueueState ι) (id : Bytes) : Prop where
  held : ∀ content, s.published id = some content → s.delivered id = false → s.Holds id content
  gone : s.published id = none ∨ s.delivered id = true → s.Absent id
  drawn : id ∈ s.disk.drawn ↔ s.owner id ≠ none
  owned : s.published id ≠ none → s.owner id ≠ none
  named : s.owner id ≠ none → id ≠ []
  sent : s.delivered id = true → s.published id ≠ none

theorem Valid.each (valid : s.Valid) (id : Bytes) : s.ValidAt id :=
  ⟨valid.held id, valid.gone id, valid.drawn id, valid.owned id, valid.named id, valid.sent id⟩

theorem valid_of_each (each : ∀ id, s.ValidAt id) : s.Valid :=
  ⟨fun id => (each id).held, fun id => (each id).gone, fun id => (each id).drawn,
    fun id => (each id).owned, fun id => (each id).named, fun id => (each id).sent⟩

/-- Nothing has happened to the id. -/
structure Spared (s t : QueueState ι) (id : Bytes) : Prop where
  files : ∀ dir, t.disk.files (msgPath dir id) = s.disk.files (msgPath dir id)
  owner : t.owner id = s.owner id
  published : t.published id = s.published id
  delivered : t.delivered id = s.delivered id
  drawn : id ∈ t.disk.drawn ↔ id ∈ s.disk.drawn

theorem Spared.valid {id : Bytes} (spared : Spared s t id) (valid : s.ValidAt id) :
    t.ValidAt id := by
  obtain ⟨files, owner, published, delivered, drawn⟩ := spared
  constructor
  · intro content
    simpa only [Holds, files, published, delivered] using valid.held content
  · simpa only [Absent, files, published, delivered] using valid.gone
  · rw [drawn, owner]
    exact valid.drawn
  · rw [published, owner]
    exact valid.owned
  · rw [owner]
    exact valid.named
  · rw [delivered, published]
    exact valid.sent

/-- A step that concerns one id is judged by what it does to that id. -/
theorem Valid.step (valid : s.Valid) (id : Bytes) (here : t.ValidAt id)
    (elsewhere : ∀ other, other ≠ id → Spared s t other) : t.Valid := by
  apply valid_of_each
  intro other
  by_cases this : other = id
  · rw [this]
    exact here
  · exact (elsewhere other this).valid (valid.each other)

theorem Valid.untouched (valid : s.Valid) (same : SameHistory s t)
    (files : ∀ dir id, t.disk.files (msgPath dir id) = s.disk.files (msgPath dir id)) :
    t.Valid := by
  apply valid_of_each
  intro id
  apply Spared.valid _ (valid.each id)
  exact ⟨fun dir => files dir id, by rw [same.owner], by rw [same.published],
    by rw [same.delivered], by rw [same.drawn]⟩

/-- A message file on disk belongs to a published id that is not delivered. -/
theorem Valid.alive (valid : s.Valid) {dir : QueueDir} {id : Bytes} {f : File}
    (found : s.disk.files (msgPath dir id) = some f) :
    s.published id = some f.data ∧ s.delivered id = false ∧
      ∀ other, other ≠ dir → s.disk.files (msgPath other id) = none := by
  have present : ¬ s.Absent id := fun absent => by simp [absent dir] at found
  have kept : ¬ (s.published id = none ∨ s.delivered id = true) :=
    fun absent => present (valid.gone id absent)
  obtain ⟨hasContent, notDelivered⟩ := not_or.mp kept
  have alive : s.delivered id = false := by simpa using notDelivered
  obtain ⟨content, published⟩ := Option.ne_none_iff_exists'.mp hasContent
  obtain ⟨home, g, foundG, data, others⟩ := valid.held id content published alive
  have same : home = dir := by
    by_contra different
    rw [others dir (Ne.symm different)] at found
    cases found
  subst same
  rw [foundG] at found
  cases found
  exact ⟨by rw [published, data], alive, others⟩

theorem Valid.moved (valid : s.Valid) (same : SameHistory s t) {src dst : QueueDir} {id : Bytes}
    {f : File} (found : s.disk.files (msgPath src id) = some f)
    (move : t.disk = s.disk.move (msgPath src id) (msgPath dst id) f) : t.Valid := by
  obtain ⟨published, alive, others⟩ := valid.alive found
  have known := valid.each id
  have here : t.disk.files (msgPath dst id) = some f := by simp [move]
  have away : ∀ dir, dir ≠ dst → t.disk.files (msgPath dir id) = none := by
    intro dir notDst
    by_cases atSrc : dir = src
    · subst atSrc
      simp [move, msgPath_inj, notDst]
    · rw [move, Disk.move_other]
      · exact others dir atSrc
      · simp [msgPath_inj, atSrc]
      · simp [msgPath_inj, notDst]
  apply valid.step id
  · constructor
    · intro content publishedT _
      rw [same.published, published] at publishedT
      cases publishedT
      exact ⟨dst, f, here, rfl, away⟩
    · rw [same.published, same.delivered, published, alive]
      simp
    · rw [same.drawn, same.owner]
      exact known.drawn
    · rw [same.published, same.owner]
      exact known.owned
    · rw [same.owner]
      exact known.named
    · rw [same.delivered, same.published]
      exact known.sent
  · intro other different
    refine ⟨fun dir => ?_, by rw [same.owner], by rw [same.published], by rw [same.delivered],
      by rw [same.drawn]⟩
    rw [move, Disk.move_other] <;> simp [msgPath_inj, different]

theorem SameHistory.rely (same : SameHistory s t)
    (tmp : ∀ id, t.disk.files (tmpPath id) = s.disk.files (tmpPath id) ∨
      t.disk.files (tmpPath id) = none) (j : ι) : Rely j s t := by
  intro id mine
  exact ⟨by rw [same.owner]; exact mine, by rw [same.published], tmp id⟩

/-- The operations other than those of `enqueue`. -/
def Shuffles : FsOp QueuePath QueueScan → Prop
  | .rename src dst => ∃ dir dir' id, src = msgPath dir id ∧ dst = msgPath dir' id
  | .remove p => (∃ id, p = msgPath .inflight id) ∨ isTmp p = true
  | .fileExists _ | .iterate _ | .lastWriteTime _ | .readFile _ | .clockNow => True
  | _ => False

variable {fails : FsOp QueuePath QueueScan → Prop}
  {lists : Disk QueuePath → QueueScan → List QueuePath → Prop}

theorem looked_accepted (valid : s.Valid) (same : SameHistory s t) (disk : t.disk = s.disk) :
    (discipline (platform fails lists)).Accepts i s t :=
  ⟨valid.untouched same fun _ _ => by rw [disk], same.grows,
    fun j _ => same.rely (fun _ => .inl (by rw [disk])) j⟩

theorem delivered_accepted (valid : s.Valid) {id : Bytes} {f : File}
    (found : s.disk.files (msgPath .inflight id) = some f)
    (disk : t.disk = s.disk.clear (msgPath .inflight id)) (owner : t.owner = s.owner)
    (published : t.published = s.published)
    (delivered : ∀ id', t.delivered id' = true ↔ s.delivered id' = true ∨ id' = id) :
    (discipline (platform fails lists)).Accepts i s t := by
  obtain ⟨known, -, others⟩ := valid.alive found
  have sent : t.delivered id = true := (delivered id).mpr (.inr rfl)
  refine ⟨?_, ⟨fun id' content h => by rw [published]; exact h,
    fun id' h => (delivered id').mpr (.inl h)⟩, ?_⟩
  · apply valid.step id
    · constructor
      · intro content _ alive
        rw [sent] at alive
        cases alive
      · intro _ dir
        by_cases leased : dir = .inflight
        · simp [disk, leased]
        · have : msgPath dir id ≠ msgPath .inflight id := by simp [msgPath_inj, leased]
          simp [disk, this, others dir leased]
      · rw [disk, owner]
        exact valid.drawn id
      · rw [published, owner]
        exact valid.owned id
      · rw [owner]
        exact valid.named id
      · simp [published, known]
    · intro other different
      refine ⟨fun dir => ?_, by rw [owner], by rw [published], ?_, by rw [disk]; rfl⟩
      · simp [disk, msgPath_inj, different]
      · rw [Bool.eq_iff_iff, delivered other]
        simp [different]
  · intro j _ id' mine
    refine ⟨by rw [owner]; exact mine, by rw [published], .inl ?_⟩
    simp [disk, (msgPath_ne_tmpPath .inflight id id').symm]

theorem orphan_accepted (valid : s.Valid) {p : QueuePath} (orphan : isTmp p = true)
    {removed : Bool} (disk : t.disk = s.disk.clear p) (owner : t.owner = s.owner)
    (published : t.published = s.published)
    (delivered : t.delivered = s.deliveredAfter (.remove p) (some removed)) :
    (discipline (platform fails lists)).Accepts i s t := by
  have same : SameHistory s t := by
    refine ⟨owner, published, ?_, by rw [disk]; rfl⟩
    rw [delivered]
    cases removed with
    | false => rfl
    | true =>
        funext id
        simp [deliveredAfter, isTmp_ne_msgPath orphan]
  refine ⟨valid.untouched same fun dir id => ?_, same.grows, fun j _ => same.rely (fun id => ?_) j⟩
  · simp [disk, (isTmp_ne_msgPath orphan dir id).symm]
  · by_cases this : tmpPath id = p
    · exact .inr (by simp [disk, this])
    · exact .inl (by simp [disk, this])

/-- Every operation outside `enqueue` is acceptable from every valid state. -/
theorem shuffle_accepted {op : FsOp QueuePath QueueScan} {r : op.Res} (shuffles : Shuffles op)
    (valid : s.Valid) (step : QueueState.sem (platform fails lists) i op s r t) :
    (discipline (platform fails lists)).Accepts i s t := by
  obtain ⟨effect, owner, published, delivered⟩ := step
  cases op with
  | rename src dst =>
      obtain ⟨dir, dir', id, rfl, rfl⟩ := shuffles
      simp only [Platform.Effect] at effect
      split at effect
      · obtain ⟨f, found, moved⟩ := effect
        have same : SameHistory s t := ⟨owner, published, delivered, by rw [moved]; rfl⟩
        refine ⟨valid.moved same found moved, same.grows, fun j _ => same.rely (fun id' => .inl ?_) j⟩
        rw [moved]
        exact Disk.move_other _ _ _ (msgPath_ne_tmpPath _ _ _).symm (msgPath_ne_tmpPath _ _ _).symm
      · exact looked_accepted valid ⟨owner, published, delivered, by rw [effect.2]⟩ effect.2
  | remove p =>
      cases r with
      | none => exact looked_accepted valid ⟨owner, published, delivered, by rw [effect.2]⟩ effect.2
      | some removed =>
          obtain ⟨was, cleared⟩ := effect
          rcases shuffles with ⟨id, rfl⟩ | orphan
          · cases found : s.disk.files (msgPath .inflight id) with
            | none =>
                have kept : t.disk = s.disk := cleared.trans (Disk.clear_absent _ _ found)
                obtain rfl : removed = false := by simpa [platform, found] using was
                exact looked_accepted valid ⟨owner, published, delivered, by rw [kept]⟩ kept
            | some f =>
                obtain rfl : removed = true := by simpa [platform, found] using was
                refine delivered_accepted valid found cleared owner published fun id' => ?_
                rw [delivered]
                simp only [deliveredAfter, Bool.or_eq_true, decide_eq_true_eq, msgPath_inj, true_and]
                exact or_congr_right eq_comm
          · exact orphan_accepted valid orphan cleared owner published delivered
  | fileExists | iterate | lastWriteTime | readFile =>
      cases r <;> exact looked_accepted valid ⟨owner, published, delivered, by rw [effect.2]⟩ effect.2
  | clockNow =>
      exact looked_accepted valid ⟨owner, published, delivered, by rw [effect.2]⟩ effect.2
  | createFile | writeFile | flushFileBuffers | closeHandle | moveFileEx | deleteFile
  | createDirectories | freshId | log => exact absurd shuffles id

end QueueState

/-! ## The calls outside `enqueue` only shuffle -/

theorem isMsg_path {f : QueuePath} (h : isMsg f = true) (dir : QueueDir) :
    (⟨dir, f.name⟩ : QueuePath) = msgPath dir (FileName.stem f.name) := by
  rw [msgPath, ← isMsg_name h]

theorem shuffles_rename {f : QueuePath} (h : isMsg f = true) (a b : QueueDir) :
    Shuffles (.rename ⟨a, f.name⟩ ⟨b, f.name⟩) :=
  ⟨a, b, FileName.stem f.name, isMsg_path h a, isMsg_path h b⟩

theorem isLeaseExpired_uses (p : QueuePath) : (isLeaseExpired p).Uses Shuffles := by
  refine ⟨trivial, ?_⟩
  intro r
  cases r with
  | none => trivial
  | some last => exact ⟨trivial, fun _ => trivial⟩

theorem reclaimExpired_uses (entries : List QueuePath) :
    (reclaimExpired entries).Uses Shuffles := by
  induction entries with
  | nil => trivial
  | cons f rest ih =>
      unfold reclaimExpired
      split
      · rename_i named
        refine (isLeaseExpired_uses f).bind fun expired => ?_
        rcases expired with _ | _ | _
        · trivial
        · exact ih
        · exact ⟨shuffles_rename named f.dir .active, fun _ => ih⟩
      · exact ih

theorem leaseFirst_uses (entries : List QueuePath) : (leaseFirst entries).Uses Shuffles := by
  induction entries with
  | nil => trivial
  | cons f rest ih =>
      unfold leaseFirst
      split
      · rename_i named
        refine ⟨trivial, ?_⟩
        intro there
        rcases there with _ | _ | _
        · exact ih
        · refine ⟨shuffles_rename named f.dir .inflight, ?_⟩
          intro leased
          cases leased with
          | false => exact ih
          | true =>
              refine ⟨trivial, ?_⟩
              intro verified
              rcases verified with _ | _ | _
              · exact ih
              · exact ih
              · refine ⟨trivial, ?_⟩
                intro raw
                rcases raw with _ | _ | _
                · exact ⟨shuffles_rename named .inflight f.dir, fun _ => ih⟩
                · exact ⟨shuffles_rename named .inflight .permanentFail, fun _ => ih⟩
                · trivial
        · exact ih
      · exact ih

theorem fetchReady_uses : fetchReady.Uses Shuffles := by
  refine ⟨trivial, ?_⟩
  intro leased
  cases leased with
  | none => trivial
  | some leased =>
      refine (reclaimExpired_uses leased).bind fun reclaimed => ?_
      match reclaimed with
      | .error _ => trivial
      | .ok () =>
        refine ⟨trivial, ?_⟩
        intro ready
        cases ready with
        | none => trivial
        | some ready => exact (leaseFirst_uses ready).bind fun _ => trivial

theorem markSuccess_uses (id : Bytes) : (markSuccess id).Uses Shuffles := by
  refine ⟨trivial, ?_⟩
  intro there
  match there with
  | none | some false => trivial
  | some true =>
    refine ⟨.inl ⟨id, rfl⟩, fun removed => ?_⟩
    cases removed <;> trivial

theorem markFail_uses (dst : QueueDir) (msg : QueueMessage) : (markFail dst msg).Uses Shuffles :=
  ⟨⟨_, _, msg.id, rfl, rfl⟩, fun _ => trivial⟩

theorem removeOrphans_uses (entries : List QueuePath) : (removeOrphans entries).Uses Shuffles := by
  induction entries with
  | nil => trivial
  | cons f rest ih =>
      unfold removeOrphans
      split
      · exact ⟨.inr ‹_›, fun _ => ih⟩
      · exact ih

theorem recover_uses : recoverOrphanedTempFiles.Uses Shuffles := by
  refine ⟨trivial, ?_⟩
  intro entries
  cases entries with
  | none => trivial
  | some entries => exact removeOrphans_uses entries

theorem settle_uses (msg : QueueMessage) (result : DeliveryResult) :
    (settle msg result).Uses Shuffles := by
  unfold settle
  split
  · exact markSuccess_uses msg.id
  · split <;> exact markFail_uses _ msg

theorem process_uses (deliver : Deliver) (logs : PassLogs) (msg : QueueMessage) :
    (process deliver logs msg).Uses Shuffles := by
  unfold process
  split
  · exact markFail_uses .failure msg
  · cases tryDelivery deliver logs msg with
    | error e => trivial
    | ok result => exact settle_uses msg result

theorem runOnce_uses (deliver : Deliver) (logs : PassLogs) : (runOnce deliver logs).Uses Shuffles := by
  refine fetchReady_uses.bind fun fetched => ?_
  match fetched with
  | .error _ | .ok none => trivial
  | .ok (some msg) => exact (process_uses deliver logs msg).bind fun _ => trivial

theorem call_uses (call : Call) (notEnqueue : ∀ sender recipient raw,
    call ≠ .enqueue sender recipient raw) : call.program.Uses Shuffles := by
  cases call with
  | enqueue sender recipient raw => exact absurd rfl (notEnqueue sender recipient raw)
  | fetchReady => exact fetchReady_uses.bind fun _ => trivial
  | markSuccess id => exact (markSuccess_uses id).bind fun _ => trivial
  | markTempFail msg => exact (markFail_uses .failure msg).bind fun _ => trivial
  | markPermFail msg => exact (markFail_uses .permanentFail msg).bind fun _ => trivial
  | runOnce deliver logs => exact (runOnce_uses deliver logs).bind fun _ => trivial
  | recoverOrphanedTempFiles => exact recover_uses.bind fun _ => trivial

/-! ## Enqueueing -/

section Enqueue

variable {ι : Type} {i : ι} {fails : FsOp QueuePath QueueScan → Prop}
  {lists : Disk QueuePath → QueueScan → List QueuePath → Prop}

/-- The id was drawn by worker `i` and nothing has appeared under it yet. -/
structure Reserved (i : ι) (id : Bytes) (s : QueueState ι) : Prop where
  mine : s.owner id = some i
  unpublished : s.published id = none

/-- What is in the temporary file, if it is still there, is `content`. -/
def Prepared (id content : Bytes) (s : QueueState ι) : Prop :=
  ∀ f, s.disk.files (tmpPath id) = some f → f.data = content

theorem Reserved.later {id : Bytes} {s t : QueueState ι} (reserved : Reserved i id s)
    (others : Rely i s t) : Reserved i id t := by
  obtain ⟨mine, published, -⟩ := others id reserved.mine
  exact ⟨mine, published.trans reserved.unpublished⟩

theorem Prepared.later {id content : Bytes} {s t : QueueState ι} (prepared : Prepared id content s)
    (reserved : Reserved i id s) (others : Rely i s t) : Prepared id content t := by
  intro f found
  rcases (others id reserved.mine).2.2 with same | gone
  · exact prepared f (same ▸ found)
  · rw [gone] at found
    cases found

theorem tmp_accepted {id : Bytes} {s t : QueueState ι} (valid : s.Valid)
    (reserved : Reserved i id s) (same : SameHistory s t)
    (files : ∀ p, p ≠ tmpPath id → t.disk.files p = s.disk.files p) :
    (discipline (platform fails lists)).Accepts i s t ∧ Reserved i id t := by
  refine ⟨⟨valid.untouched same fun dir id' => files _ (msgPath_ne_tmpPath dir id' id), same.grows,
    fun j different id' mine => ?_⟩, ⟨by rw [same.owner]; exact reserved.mine,
      by rw [same.published]; exact reserved.unpublished⟩⟩
  refine ⟨by rw [same.owner]; exact mine, by rw [same.published], .inl (files _ fun this => ?_)⟩
  obtain rfl := tmpPath_injective this
  rw [reserved.mine] at mine
  exact different (Option.some.inj mine).symm

/-- Renaming the prepared file into `active` publishes the id. -/
theorem publish_accepted {id : Bytes} {f : File} {s t : QueueState ι} (valid : s.Valid)
    (reserved : Reserved i id s) (disk : t.disk = s.disk.move (tmpPath id) (msgPath .active id) f)
    (owner : t.owner = s.owner) (delivered : t.delivered = s.delivered)
    (published : t.published = Function.update s.published id (some f.data)) :
    (discipline (platform fails lists)).Accepts i s t := by
  have absent : s.Absent id := valid.gone id (.inl reserved.unpublished)
  have alive : t.delivered id = false := by
    rw [delivered, ← Bool.not_eq_true]
    exact fun sent => valid.sent id sent reserved.unpublished
  have others : ∀ {other}, other ≠ id → t.published other = s.published other := by
    intro other different
    simp [published, different]
  refine ⟨?_, ⟨fun id' content known => ?_, fun id' h => by rw [delivered]; exact h⟩, ?_⟩
  · apply valid.step id
    · constructor
      · intro content known _
        obtain rfl : f.data = content := by simpa [published] using known
        refine ⟨.active, f, by simp [disk], rfl, ?_⟩
        intro other notActive
        rw [disk, Disk.move_other]
        · exact absent other
        · exact msgPath_ne_tmpPath other id id
        · simp [msgPath_inj, notActive]
      · simp [published, alive]
      · rw [disk, owner]
        exact valid.drawn id
      · simp [owner, reserved.mine]
      · rw [owner]
        exact valid.named id
      · simp [alive]
    · intro other different
      refine ⟨fun dir => ?_, by rw [owner], others different, by rw [delivered], by rw [disk]; rfl⟩
      rw [disk, Disk.move_other]
      · exact msgPath_ne_tmpPath dir other id
      · simp [msgPath_inj, different]
  · have notThis : id' ≠ id := by
      rintro rfl
      rw [reserved.unpublished] at known
      cases known
    rw [others notThis]
    exact known
  · intro j different id' mine
    have notThis : id' ≠ id := by
      rintro rfl
      rw [reserved.mine] at mine
      exact different (Option.some.inj mine).symm
    refine ⟨by rw [owner]; exact mine, others notThis, .inl ?_⟩
    rw [disk, Disk.move_other]
    · exact fun same => notThis (tmpPath_injective same)
    · exact (msgPath_ne_tmpPath .active id id').symm

/-- What the stages of `atomicWriteFile` guarantee. -/
abbrev Written (i : ι) (id content : Bytes) (r : Except Exn Bool) (t : QueueState ι) : Prop :=
  r = .ok true → t.owner id = some i ∧ t.published id = some content

theorem discard_safe {id content : Bytes} {s : QueueState ι} (reserved : Reserved i id s) :
    (discipline (platform fails lists)).Safe i (Written i id content)
      (AtomicWrite.discard (tmpPath id)) s := by
  intro t kept others gone u ⟨effect, owner, published, delivered⟩
  have deleted : u.disk = t.disk.clear (tmpPath id) ∨ u.disk = t.disk := by
    simp only [Platform.Effect] at effect
    split at effect
    · exact .inl effect
    · exact .inr effect.2
  have same : SameHistory t u :=
    ⟨owner, published, delivered, by rcases deleted with same | same <;> rw [same]; rfl⟩
  refine ⟨(tmp_accepted kept (reserved.later others) same fun p other => ?_).1,
    fun _ _ _ h => by cases h⟩
  rcases deleted with same | same <;> simp [same, other]

theorem abandon_safe {id content : Bytes} {s : QueueState ι} (reserved : Reserved i id s) :
    (discipline (platform fails lists)).Safe i (Written i id content)
      (AtomicWrite.abandon (tmpPath id)) s := by
  intro t kept others _ u ⟨effect, owner, published, delivered⟩
  have disk : u.disk = t.disk := effect
  obtain ⟨accepted, reserved⟩ := tmp_accepted kept (reserved.later others)
    ⟨owner, published, delivered, by rw [disk]⟩ fun _ _ => by rw [disk]
  exact ⟨accepted, discard_safe reserved⟩

theorem verify_safe {id content : Bytes} {s : QueueState ι} (mine : s.owner id = some i)
    (known : s.published id = some content) :
    (discipline (platform fails lists)).Safe i (Written i id content)
      (AtomicWrite.verify (msgPath .active id)) s := by
  intro t kept others there u ⟨effect, owner, published, delivered⟩
  have disk : u.disk = t.disk := by cases there <;> exact effect.2
  obtain ⟨mineT, knownT, -⟩ := others id mine
  refine ⟨looked_accepted kept ⟨owner, published, delivered, by rw [disk]⟩ disk, ?_⟩
  have stays : ∀ v, Rely i u v → v.owner id = some i ∧ v.published id = some content := by
    intro v othersV
    have knownU : u.published id = some content := by
      rw [published]
      exact knownT.trans known
    obtain ⟨mineV, knownV, -⟩ := othersV id (by rw [owner]; exact mineT)
    exact ⟨mineV, knownV.trans knownU⟩
  cases there with
  | none => exact fun v _ othersV _ => stays v othersV
  | some found => exact fun v _ othersV _ => stays v othersV

theorem renameOver_safe {id content : Bytes} {s : QueueState ι} (reserved : Reserved i id s)
    (prepared : Prepared id content s) :
    (discipline (platform fails lists)).Safe i (Written i id content)
      (AtomicWrite.renameOver (tmpPath id) (msgPath .active id)) s := by
  intro t kept others moved u ⟨effect, owner, published, delivered⟩
  have reservedT := reserved.later others
  cases moved with
  | false =>
      obtain ⟨accepted, reservedU⟩ := tmp_accepted kept reservedT
        ⟨owner, published, delivered, by rw [effect.2]⟩ fun _ _ => by rw [effect.2]
      exact ⟨accepted, discard_safe reservedU⟩
  | true =>
      obtain ⟨f, found, disk⟩ := effect
      have data : f.data = content := prepared.later reserved others f found
      have publishedU : u.published = Function.update t.published id (some f.data) := by
        rw [published]
        funext id'
        by_cases this : id' = id
        · subst this
          have found : t.disk.files (tmpPath id') = some f := found
          simp [publishedAfter, found]
        · simp [publishedAfter, msgPath_inj, this, Ne.symm this]
      refine ⟨publish_accepted kept reservedT disk owner delivered publishedU, ?_⟩
      exact verify_safe (by rw [owner]; exact reservedT.mine) (by simp [publishedU, data])

theorem take_take_full {content : Bytes} {k n : Nat} (within : n ≤ (content.take k).length)
    (full : n = content.length) : (content.take k).take n = content := by
  subst full
  have : content.take k = content := by
    rw [List.length_take] at within
    exact List.take_of_length_le (by omega)
  rw [this, List.take_length]

theorem close_safe {id content : Bytes} {s : QueueState ι} (reserved : Reserved i id s)
    (prepared : Prepared id content s) :
    (discipline (platform fails lists)).Safe i (Written i id content)
      (.step (.closeHandle (tmpPath id)) fun _ =>
        AtomicWrite.renameOver (tmpPath id) (msgPath .active id)) s := by
  intro t kept others _ u ⟨effect, owner, published, delivered⟩
  have disk : u.disk = t.disk := effect
  have prepared : Prepared id content u := by
    intro f found
    exact prepared.later reserved others f (by rwa [disk] at found)
  obtain ⟨accepted, reserved⟩ := tmp_accepted kept (reserved.later others)
    ⟨owner, published, delivered, by rw [disk]⟩ fun p _ => by rw [disk]
  exact ⟨accepted, renameOver_safe reserved prepared⟩

theorem flush_safe {id content : Bytes} {s : QueueState ι} (reserved : Reserved i id s)
    (prepared : Prepared id content s) :
    (discipline (platform fails lists)).Safe i (Written i id content)
      (.step (.flushFileBuffers (tmpPath id)) fun flushed =>
        if !flushed then AtomicWrite.abandon (tmpPath id) else
          .step (.closeHandle (tmpPath id)) fun _ =>
            AtomicWrite.renameOver (tmpPath id) (msgPath .active id)) s := by
  intro t kept others flushed u ⟨effect, owner, published, delivered⟩
  cases flushed with
  | false =>
      obtain ⟨accepted, reserved⟩ := tmp_accepted kept (reserved.later others)
        ⟨owner, published, delivered, by rw [effect.2]⟩ fun _ _ => by rw [effect.2]
      exact ⟨accepted, abandon_safe reserved⟩
  | true =>
      have disk : u.disk = t.disk.sync (tmpPath id) := effect
      have prepared : Prepared id content u := by
        intro g found
        rw [disk] at found
        obtain ⟨f, before, data⟩ := Disk.sync_data _ _ found
        rw [data]
        exact prepared.later reserved others f before
      obtain ⟨accepted, reserved⟩ := tmp_accepted kept (reserved.later others)
        ⟨owner, published, delivered, by rw [disk]; simp⟩ fun p other => by
          rw [disk, Disk.sync_other _ _ other]
      exact ⟨accepted, close_safe reserved prepared⟩

/-- The queue's `atomicWriteFile` is safe for the worker that drew the id, and
    when it reports success the content is published. -/
theorem atomicWriteFile_safe {id content : Bytes} {s : QueueState ι} (reserved : Reserved i id s) :
    (discipline (platform fails lists)).Safe i (Written i id content)
      (AtomicWrite.atomicWriteFile (tmpPath id) (msgPath .active id) content) s := by
  intro t kept others created u ⟨effect, owner, published, delivered⟩
  cases created with
  | false =>
      have same : SameHistory t u := ⟨owner, published, delivered, by rw [effect.2]⟩
      exact ⟨looked_accepted kept same effect.2, fun _ _ _ h => by cases h⟩
  | true =>
  have disk : u.disk = t.disk.put (tmpPath id) ⟨[], false, t.disk.now⟩ := effect
  obtain ⟨accepted, reserved⟩ := tmp_accepted kept (reserved.later others)
    ⟨owner, published, delivered, by rw [disk]; rfl⟩ fun p other => by simp [disk, other]
  refine ⟨accepted, ?_⟩
  -- the write, which is whole if it reports the full size
  intro t kept others bytesWritten u ⟨effect, owner, published, delivered⟩
  have written : ∃ data, u.disk = t.disk.overwrite (tmpPath id) data ∧
      (bytesWritten = some content.length → data = content) := by
    cases bytesWritten with
    | none =>
        obtain ⟨-, data, same⟩ := effect
        exact ⟨data, same, by simp⟩
    | some n =>
        obtain ⟨within, -, same⟩ := effect
        exact ⟨_, same, fun full => take_take_full within (Option.some.inj full)⟩
  obtain ⟨data, disk, whole⟩ := written
  obtain ⟨accepted, reserved⟩ := tmp_accepted kept (reserved.later others)
    ⟨owner, published, delivered, by rw [disk]; simp⟩ fun p other => by
      rw [disk, Disk.overwrite_other _ _ _ other]
  refine ⟨accepted, ?_⟩
  dsimp only
  split
  · exact abandon_safe reserved
  · rename_i full
    have prepared : Prepared id content u := by
      intro f found
      rw [disk] at found
      rw [Disk.overwrite_data _ _ _ found, whole (not_not.mp full)]
    exact flush_safe reserved prepared

theorem fresh_accepted {id : Bytes} {s t : QueueState ι} (valid : s.Valid)
    (step : QueueState.sem (platform fails lists) i .freshId s id t) :
    (discipline (platform fails lists)).Accepts i s t ∧ Reserved i id t := by
  obtain ⟨⟨⟨ticks, nonce, text⟩, fresh, disk⟩, owner, published, delivered⟩ := step
  have published : t.published = s.published := published
  have delivered : t.delivered = s.delivered := delivered
  have owner : t.owner = Function.update s.owner id (some i) := owner
  have unowned : s.owner id = none := by
    by_contra owned
    exact fresh ((valid.drawn id).mpr owned)
  have unpublished : s.published id = none := by
    by_contra known
    exact valid.owned id known unowned
  have files : t.disk.files = s.disk.files := by rw [disk]
  refine ⟨⟨?_, ⟨fun id' content h => by rw [published]; exact h,
    fun id' h => by rw [delivered]; exact h⟩, ?_⟩, ⟨by simp [owner], by rw [published]; exact unpublished⟩⟩
  · apply valid.step id
    · constructor
      · intro content known
        rw [published, unpublished] at known
        cases known
      · intro _ dir
        rw [files]
        exact valid.gone id (.inl unpublished) dir
      · simp [disk, owner]
      · simp [owner]
      · intro _
        rw [text]
        exact idText_ne_nil ticks nonce
      · rw [delivered, published]
        exact valid.sent id
    · intro other different
      refine ⟨fun dir => by rw [files], ?_, by rw [published], by rw [delivered], ?_⟩
      · simp [owner, different]
      · simp [disk, different]
  · intro j different id' mine
    have notThis : id' ≠ id := by
      rintro rfl
      rw [unowned] at mine
      cases mine
    exact ⟨by simp [owner, notThis, mine], by rw [published], .inl (by rw [files])⟩

/-- The id `enqueue` returns is published with the content built from its arguments. -/
abbrev Enqueued (sender recipient raw : Bytes) (r : Except Exn Bytes) (t : QueueState ι) : Prop :=
  ∀ id, r = .ok id → t.published id = some (enqueuedContent sender recipient raw)

theorem enqueue_safe (sender recipient raw : Bytes) {s : QueueState ι} :
    (discipline (platform fails lists)).Safe i (Enqueued sender recipient raw)
      (enqueue sender recipient raw) s := by
  intro t kept _ entries u ⟨effect, owner, published, delivered⟩
  have disk : u.disk = t.disk := by cases entries <;> exact effect.2
  refine ⟨looked_accepted kept ⟨owner, published, delivered, by rw [disk]⟩ disk, ?_⟩
  cases entries with
  | none => exact fun _ _ _ _ h => by cases h
  | some entries =>
      dsimp only
      split
      · exact fun _ _ _ _ h => by cases h
      intro t kept _ id u step
      obtain ⟨accepted, reserved⟩ := fresh_accepted kept step
      refine ⟨accepted, (atomicWriteFile_safe reserved).bind (fun r v _ written => ?_) accepted.1⟩
      match r with
      | .error _ | .ok false => exact fun _ _ _ _ h => by cases h
      | .ok true =>
        obtain ⟨mine, known⟩ := written rfl
        intro w _ others id' same
        cases same
        exact (others id mine).2.1.trans known

/-- What a finished call has established. -/
def Established (result : Call × Outcome) (t : QueueState ι) : Prop :=
  match result with
  | (.enqueue sender recipient raw, .enqueued r) => Enqueued sender recipient raw r t
  | _ => True

theorem call_safe (call : Call) {s : QueueState ι} :
    (discipline (platform fails lists)).Safe i Established (callProgram call) s := by
  by_cases enqueues : ∃ sender recipient raw, call = .enqueue sender recipient raw
  · obtain ⟨sender, recipient, raw, rfl⟩ := enqueues
    have safe : (discipline (platform fails lists)).Safe i (Enqueued sender recipient raw)
        (enqueue sender recipient raw) s := enqueue_safe sender recipient raw
    have outcome : (discipline (platform fails lists)).Safe i
        (fun out => Established (.enqueue sender recipient raw, out))
        (Call.enqueue sender recipient raw).program s := safe.map fun _ _ h => h
    exact outcome.map fun _ _ h => h
  · have uses : call.program.Uses Shuffles :=
      call_uses call fun sender recipient raw same => enqueues ⟨sender, recipient, raw, same⟩
    have safe : (discipline (platform fails lists)).Safe i (fun _ _ => True) call.program s :=
      Discipline.Safe.of_uses uses (fun _ _ _ _ shuffles kept step =>
        shuffle_accepted shuffles kept step) fun _ _ _ => trivial
    refine safe.map fun out t _ => ?_
    unfold Established
    split
    · rename_i same
      cases same
      exact absurd ⟨_, _, _, rfl⟩ enqueues
    · trivial

theorem call_lasting (result : Call × Outcome) {s t : QueueState ι} (grown : Grows s t)
    (holds : Established result s) : Established result t := by
  unfold Established at holds ⊢
  split at holds
  · exact fun id same => grown.published _ _ (holds id same)
  · trivial

end Enqueue

/-! ## The queue as a whole -/

section System

variable {ι : Type} [DecidableEq ι]

omit [DecidableEq ι] in
theorem guaranteed : Pool.Guaranteed (discipline concurrent : Discipline ι _ _ (QueueState ι))
    IsCall Tick Established where
  entries _ _ _ := by
    rintro ⟨call, rfl⟩ _
    exact call_safe call
  ambients s t := by
    rintro ⟨later, _, rfl⟩ valid
    have same : SameHistory s { s with disk := { s.disk with now := later } } :=
      ⟨rfl, rfl, rfl, rfl⟩
    exact ⟨valid.untouched same fun _ _ => rfl, same.grows, same.rely fun _ => .inl rfl⟩
  lasting result _ _ grown holds := call_lasting result grown holds

theorem reachable_consistent {pool : QueuePool ι} (reached : Reachable pool) :
    Pool.Consistent (discipline concurrent) Established pool := by
  obtain ⟨now, steps⟩ := reached
  exact Pool.consistent guaranteed steps (Pool.start_consistent (initial_valid now))

theorem reachable_later {pool later : QueuePool ι} (reached : Reachable pool)
    (steps : Relation.ReflTransGen QueueStep pool later) : Reachable later := by
  obtain ⟨now, before⟩ := reached
  exact ⟨now, before.trans steps⟩

/-- What is delivered has left the disk for ever. -/
theorem delivered_absent {pool later : QueuePool ι} (reached : Reachable pool) {id : Bytes}
    (sent : pool.shared.delivered id = true)
    (steps : Relation.ReflTransGen QueueStep pool later) : later.shared.Absent id := by
  have grown : Grows pool.shared later.shared :=
    Pool.steps_grow guaranteed Grows.refl (fun _ _ _ => Grows.trans) steps
      (reachable_consistent reached)
  exact (reachable_consistent (reachable_later reached steps)).valid.gone id
    (.inr (grown.delivered id sent))

end System

/-! ## Listing an undisturbed queue -/

section Listing

variable {ι : Type} {s : QueueState ι} {fails : FsOp QueuePath QueueScan → Prop}
  {t : Disk QueuePath} {ids : List Bytes}

theorem QueueState.Valid.nonempty (valid : s.Valid) {dir : QueueDir} {id : Bytes}
    (found : s.disk.files (msgPath dir id) ≠ none) : id ≠ [] := by
  obtain ⟨f, found⟩ := Option.ne_none_iff_exists'.mp found
  exact valid.named id (valid.owned id (by simp [(valid.alive found).1]))

theorem isMsg_eq {f : QueuePath} {id : Bytes} (named : isMsg f = true)
    (stem : FileName.stem f.name = id) : f = msgPath f.dir id := by
  rw [← stem, ← isMsg_path named]

theorem listDir_exact (valid : s.Valid) {dir : QueueDir}
    (run : (listDir dir).Runs (platform fails exactScan).Effect s.disk (.ok ids) t) :
    t = s.disk ∧ ids.Nodup ∧ ∀ id, id ∈ ids ↔ s.disk.files (msgPath dir id) ≠ none := by
  obtain ⟨entries, mid, effect, rest⟩ := run
  cases entries with
  | none => cases rest.1
  | some entries =>
      obtain ⟨⟨nodup, exact⟩, rfl⟩ := effect
      obtain ⟨same, rfl⟩ := rest
      cases same
      have inDir : ∀ f ∈ entries.filter isMsg, isMsg f = true ∧ f.dir = dir := by
        intro f member
        obtain ⟨inside, named⟩ := List.mem_filter.mp member
        exact ⟨named, ((exact f).mp inside).2⟩
      refine ⟨rfl, ?_, fun id => ?_⟩
      · refine List.Nodup.map_on ?_ (nodup.filter _)
        intro f memberF g memberG same
        rw [isMsg_eq (inDir f memberF).1 rfl, isMsg_eq (inDir g memberG).1 rfl, same,
          (inDir f memberF).2, (inDir g memberG).2]
      · rw [List.mem_map]
        constructor
        · rintro ⟨f, member, stem⟩
          obtain ⟨named, home⟩ := inDir f member
          have present := ((exact f).mp (List.mem_filter.mp member).1).1
          rwa [isMsg_eq named stem, home] at present
        · intro found
          have nonempty := valid.nonempty found
          refine ⟨msgPath dir id, List.mem_filter.mpr ⟨(exact _).mpr ⟨found, rfl⟩, ?_⟩, ?_⟩
          · exact isMsg_msgPath dir nonempty
          · exact msgName_stem nonempty

/-- The directories `list` looks at. -/
def Listed (dir : QueueDir) : Prop := dir = .active ∨ dir = .inflight ∨ dir = .failure

theorem list_exact (valid : s.Valid)
    (run : Queue.list.Runs (platform fails exactScan).Effect s.disk (.ok ids) t) :
    ids.Nodup ∧ ∀ id, id ∈ ids ↔ ∃ dir, Listed dir ∧ s.disk.files (msgPath dir id) ≠ none := by
  obtain ⟨active, mid, runA, run⟩ := Prog.runs_bind.mp run
  cases active with
  | error e => cases run.1
  | ok active =>
  obtain ⟨rfl, nodupA, memA⟩ := listDir_exact valid runA
  obtain ⟨inflight, mid, runI, run⟩ := Prog.runs_bind.mp run
  cases inflight with
  | error e => cases run.1
  | ok inflight =>
  obtain ⟨rfl, nodupI, memI⟩ := listDir_exact valid runI
  obtain ⟨failure, runF, same⟩ := Prog.runs_map.mp run
  cases failure with
  | error e => cases same
  | ok failure =>
  obtain ⟨-, nodupF, memF⟩ := listDir_exact valid runF
  cases same
  have oneHome : ∀ {a b id}, s.disk.files (msgPath a id) ≠ none →
      s.disk.files (msgPath b id) ≠ none → a = b := by
    intro a b id inA inB
    obtain ⟨f, found⟩ := Option.ne_none_iff_exists'.mp inA
    by_contra different
    exact inB ((valid.alive found).2.2 b (Ne.symm different))
  constructor
  · rw [List.nodup_append', List.nodup_append']
    refine ⟨⟨nodupA, nodupI, fun id inA inI => ?_⟩, nodupF, fun id inAI inF => ?_⟩
    · exact absurd (oneHome ((memA id).mp inA) ((memI id).mp inI)) (by decide)
    · rcases List.mem_append.mp inAI with inA | inI
      · exact absurd (oneHome ((memA id).mp inA) ((memF id).mp inF)) (by decide)
      · exact absurd (oneHome ((memI id).mp inI) ((memF id).mp inF)) (by decide)
  · intro id
    rw [List.mem_append, List.mem_append, memA id, memI id, memF id]
    constructor
    · rintro ((found | found) | found)
      · exact ⟨_, .inl rfl, found⟩
      · exact ⟨_, .inr (.inl rfl), found⟩
      · exact ⟨_, .inr (.inr rfl), found⟩
    · rintro ⟨dir, rfl | rfl | rfl, found⟩
      · exact .inl (.inl found)
      · exact .inl (.inr found)
      · exact .inr found

theorem exactScan_exists {s : Disk QueuePath} (finite : {p | s.files p ≠ none}.Finite)
    (d : QueueScan) : ∃ entries, exactScan s d entries := by
  classical
  refine ⟨finite.toFinset.toList.filter (d.covers ·), (Finset.nodup_toList _).filter _, fun p => ?_⟩
  simp

/-- A directory that can be scanned yields ids, and its scan comes to an end. -/
theorem listDir_returns {disk : Disk QueuePath} (finite : {p | disk.files p ≠ none}.Finite)
    (scans : ∀ dir, ¬ fails (.iterate (.directory dir))) (dir : QueueDir) :
    (∃ ids, (listDir dir).Runs (platform fails exactScan).Effect disk (.ok ids) disk) ∧
      ∀ result t, (listDir dir).Runs (platform fails exactScan).Effect disk result t →
        t = disk ∧ ∃ ids, result = .ok ids := by
  constructor
  · obtain ⟨entries, exact⟩ := exactScan_exists finite (.directory dir)
    exact ⟨_, some entries, disk, ⟨exact, rfl⟩, rfl, rfl⟩
  · rintro result t ⟨entries, mid, effect, rest⟩
    cases entries with
    | none => exact absurd effect.1 (scans dir)
    | some entries =>
        obtain ⟨-, rfl⟩ := effect
        obtain ⟨rfl, rfl⟩ := rest
        exact ⟨rfl, _, rfl⟩

theorem list_returns {disk : Disk QueuePath} (finite : {p | disk.files p ≠ none}.Finite)
    (scans : ∀ dir, ¬ fails (.iterate (.directory dir))) :
    (∃ result t, Queue.list.Runs (platform fails exactScan).Effect disk result t) ∧
      ∀ result t, Queue.list.Runs (platform fails exactScan).Effect disk result t →
        ∃ ids, result = .ok ids := by
  constructor
  · obtain ⟨active, runA⟩ := (listDir_returns finite scans .active).1
    obtain ⟨inflight, runI⟩ := (listDir_returns finite scans .inflight).1
    obtain ⟨failure, runF⟩ := (listDir_returns finite scans .failure).1
    exact ⟨_, _, Prog.runs_bind.mpr ⟨_, _, runA, Prog.runs_bind.mpr ⟨_, _, runI,
      Prog.runs_map.mpr ⟨_, runF, rfl⟩⟩⟩⟩
  · intro result t run
    obtain ⟨_, mid, runA, run⟩ := Prog.runs_bind.mp run
    obtain ⟨rfl, active, rfl⟩ := (listDir_returns finite scans .active).2 _ _ runA
    obtain ⟨_, mid, runI, run⟩ := Prog.runs_bind.mp run
    obtain ⟨rfl, inflight, rfl⟩ := (listDir_returns finite scans .inflight).2 _ _ runI
    obtain ⟨_, runF, rfl⟩ := Prog.runs_map.mp run
    obtain ⟨rfl, failure, rfl⟩ := (listDir_returns finite scans .failure).2 _ _ runF
    exact ⟨_, rfl⟩

end Listing

theorem reachable_finite {ι : Type} [DecidableEq ι] {pool : QueuePool ι} (reached : Reachable pool) :
    {p | pool.shared.disk.files p ≠ none}.Finite := by
  obtain ⟨now, steps⟩ := reached
  induction steps with
  | refl => simp [Pool.start, initial]
  | tail _ step ih =>
      cases step with
      | call | finish | die => exact ih
      | operate _ effect => exact Platform.effect_finite effect.1 ih
      | around tick =>
          obtain ⟨later, -, rfl⟩ := tick
          exact ih

/-- In every interleaving of calls, deaths and passing time: an enqueued message
    is in exactly one directory with the enqueued content, or it was removed
    from `inflight` and is in none from then on. A queue at rest is listed
    exactly, and `list` does return where the directories can be scanned. -/
theorem queue_conserves {ι : Type} [DecidableEq ι] (pool : QueuePool ι) (reached : Reachable pool) :
    (∀ sender recipient raw id,
      (Call.enqueue sender recipient raw, Outcome.enqueued (.ok id)) ∈ pool.returned →
        (pool.shared.delivered id = false ∧
          pool.shared.Holds id (enqueuedContent sender recipient raw)) ∨
        (pool.shared.delivered id = true ∧
          ∀ later, Relation.ReflTransGen QueueStep pool later → later.shared.Absent id)) ∧
    (pool.Quiescent → ∀ fails,
      (∀ ids t, Queue.list.Runs (platform fails exactScan).Effect pool.shared.disk (.ok ids) t →
        ids.Nodup ∧
        ∀ id, id ∈ ids ↔ ∃ dir, Listed dir ∧ pool.shared.disk.files (msgPath dir id) ≠ none) ∧
      ((∀ dir, ¬ fails (.iterate (.directory dir))) →
        (∃ result t,
          Queue.list.Runs (platform fails exactScan).Effect pool.shared.disk result t) ∧
        ∀ result t, Queue.list.Runs (platform fails exactScan).Effect pool.shared.disk result t →
          ∃ ids, result = .ok ids)) := by
  have consistent := reachable_consistent reached
  refine ⟨fun sender recipient raw id done => ?_, fun _ fails =>
    ⟨fun ids t run => list_exact consistent.valid run,
      fun scans => list_returns (reachable_finite reached) scans⟩⟩
  have known := consistent.returned _ done id rfl
  cases sent : pool.shared.delivered id with
  | false => exact .inl ⟨rfl, consistent.valid.held id _ known sent⟩
  | true => exact .inr ⟨rfl, fun later steps => delivered_absent reached sent steps⟩

/-- After a first message has been enqueued, `list` finds it. -/
theorem queue_conserves_first : ∃ pool : QueuePool Unit, Reachable pool ∧
    pool.shared.Holds (idText 7 1) (enqueuedContent (ascii "a@x") (ascii "b@y") (ascii "hi")) ∧
    ∃ ids t, Queue.list.Runs (platform (fun _ => False) exactScan).Effect pool.shared.disk (.ok ids) t ∧
      idText 7 1 ∈ ids := by
  let content := enqueuedContent (ascii "a@x") (ascii "b@y") (ascii "hi")
  have run : (enqueue (ascii "a@x") (ascii "b@y") (ascii "hi")).Runs (sem concurrent ()) (initial 0)
      (.ok (idText 7 1)) (oneMessage () (msgPath .active (idText 7 1)) (idText 7 1) content 0 0) :=
    enqueue_first exactScan_covers (by decide) 0 7 1
  have enqueued : Trace concurrent (initial 0)
      [⟨0, .enqueue (ascii "a@x") (ascii "b@y") (ascii "hi"), .enqueued (.ok (idText 7 1))⟩] _ :=
    .call .start (Prog.runs_map.mpr ⟨_, run, rfl⟩)
  have conserved := queue_conserves _ enqueued.reachable
  refine ⟨_, enqueued.reachable, ?_, ?_⟩
  · rcases conserved.1 _ _ _ _ (List.mem_singleton_self _) with ⟨_, holds⟩ | ⟨sent, _⟩
    · exact holds
    · exact absurd sent (by simp [oneMessage])
  · obtain ⟨exact, returns⟩ := conserved.2 (fun _ => rfl) fun _ => False
    obtain ⟨⟨result, t, listed⟩, answers⟩ := returns fun _ => not_false
    obtain ⟨ids, rfl⟩ := answers result t listed
    refine ⟨ids, t, listed, ((exact ids t listed).2 _).mpr ⟨.active, .inl rfl, ?_⟩⟩
    simp [oneMessage, oneFile]

end EmailServer.Queue
