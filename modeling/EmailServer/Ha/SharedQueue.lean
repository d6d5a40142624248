import EmailServer.Ha.Cluster

/-! # What nodes and producers do to a shared queue

A node that is alone at work opens no message, and one that it is handed lies in `inflight`.
Whatever the producers do, no message loses its file, and so none that was published is
opened again.
-/

namespace EmailServer.Ha

open Queue (QueueDir QueuePath QueueScan QueueProg QueueMessage QueueState Call Outcome callProgram
  msgPath msgName concurrent)

/-! ## What an operation does to the messages of others -/

section Disks

variable {κ : Type} {x : κ} {s t u : QueueState κ} {id : Bytes}

/-- No message loses its file. -/
def Keeps (s t : QueueState κ) : Prop :=
  ∀ dir id, s.disk.files (msgPath dir id) ≠ none → t.disk.files (msgPath dir id) ≠ none

/-- No message is open that was not. -/
def OpensNone (s t : QueueState κ) : Prop := ∀ id, Open t.disk id → Open s.disk id

theorem Open.congr {s t : Disk QueuePath} (same : t.files = s.files) : Open t id ↔ Open s id := by
  rw [Open, Open, same]

theorem Open.present (opened : Open s.disk id) : ¬ s.Absent id := fun absent =>
  opened.elim (absurd (absent _)) (absurd (absent _))

theorem looks_same {op : FsOp QueuePath QueueScan} {r : op.Res} (looks : op.writes = [])
    (effect : QueueState.sem concurrent x op s r t) : t.disk.files = s.disk.files := by
  funext p
  exact Platform.effect_frame effect.1 fun q member => by simp [looks] at member

theorem rename_opensNone {src dst : QueueDir} {name : Bytes} {moved : Bool}
    (before : src = .active ∨ src = .inflight)
    (effect : QueueState.sem concurrent x (.rename ⟨src, name⟩ ⟨dst, name⟩) s moved t) :
    OpensNone s t := by
  obtain ⟨effect, -⟩ := effect
  intro id opened
  cases moved with
  | false =>
      obtain ⟨-, same⟩ := effect
      rwa [same] at opened
  | true =>
      obtain ⟨f, found, moved⟩ := effect
      have each : ∀ dir, t.disk.files (msgPath dir id) ≠ none →
          s.disk.files (msgPath dir id) ≠ none ∨ Open s.disk id := by
        intro dir there
        rw [moved, Disk.move_files] at there
        by_cases arrived : msgPath dir id = concurrent.locate ⟨dst, name⟩
        · right
          obtain rfl : msgName id = name := congrArg QueuePath.name arrived
          have present : s.disk.files (msgPath src id) ≠ none := by
            rw [show s.disk.files (msgPath src id) = some f from found]
            simp
          rcases before with rfl | rfl
          · exact .inl present
          · exact .inr present
        rw [Function.update_of_ne arrived] at there
        by_cases left : msgPath dir id = concurrent.locate ⟨src, name⟩
        · rw [left, Function.update_self] at there
          exact absurd rfl there
        · rw [Function.update_of_ne left] at there
          exact .inl there
      rcases opened with waits | leased
      · exact (each .active waits).elim .inl fun before => before
      · exact (each .inflight leased).elim .inr fun before => before

theorem remove_opensNone {p : QueuePath} {removed : Option Bool}
    (effect : QueueState.sem concurrent x (.remove p) s removed t) : OpensNone s t := by
  obtain ⟨effect, -⟩ := effect
  intro id opened
  cases removed with
  | none => rwa [effect.2] at opened
  | some removed =>
      have each : ∀ q, t.disk.files q ≠ none → s.disk.files q ≠ none := by
        intro q there
        rw [effect.2, Disk.clear_files] at there
        by_cases here : q = concurrent.locate p
        · rw [here, Function.update_self] at there
          exact absurd rfl there
        · rwa [Function.update_of_ne here] at there
      exact opened.imp (each _) (each _)

end Disks

/-! ## The calls of a node -/

section Calls

variable {κ α : Type} {x : κ} {s : QueueState κ}

/-- A node alone at work: the others keep the messages, and it opens none. -/
def worker (x : κ) : Discipline Unit (FsOp QueuePath QueueScan) FsOp.Res (QueueState κ) where
  sem _ := QueueState.sem concurrent x
  valid _ := True
  rely _ := Keeps
  grows := OpensNone
  rely_refl _ _ _ _ := id
  rely_trans _ _ _ _ first second dir id there := second dir id (first dir id there)

/-- A message that is handed out has its file in `inflight`. -/
def HandedOut (fetched : Option QueueMessage) (s : QueueState κ) : Prop :=
  ∀ msg, fetched = some msg → s.disk.files (msgPath .inflight msg.id) ≠ none

theorem safe_step {post : α → QueueState κ → Prop} {op : FsOp QueuePath QueueScan}
    {next : op.Res → QueueProg α}
    (opens : ∀ s r t, QueueState.sem concurrent x op s r t → OpensNone s t)
    (rest : ∀ s r t, QueueState.sem concurrent x op s r t →
      (worker x).Safe () post (next r) t) : (worker x).Safe () post (.step op next) s :=
  fun t _ _ r u effect => ⟨⟨trivial, opens t r u effect, fun _ other => absurd rfl other⟩,
    rest t r u effect⟩

theorem safe_look {post : α → QueueState κ → Prop} {op : FsOp QueuePath QueueScan}
    {next : op.Res → QueueProg α} (looks : op.writes = [])
    (rest : ∀ s r t, QueueState.sem concurrent x op s r t →
      (worker x).Safe () post (next r) t) : (worker x).Safe () post (.step op next) s :=
  safe_step (fun _ _ _ effect _ => (Open.congr (looks_same looks effect)).mp) rest

theorem safe_pure {post : α → QueueState κ → Prop} {a : α} (holds : ∀ t, post a t) :
    (worker x).Safe () post (.pure a) s := fun t _ _ => holds t

theorem isLeaseExpired_safe (p : QueuePath) :
    (worker x).Safe () (fun _ _ => True) (Queue.isLeaseExpired p) s := by
  apply safe_look rfl
  intro _ last _ _
  cases last with
  | none => exact safe_pure fun _ => trivial
  | some last => exact safe_look rfl fun _ _ _ _ => safe_pure fun _ => trivial

theorem reclaimExpired_safe (entries : List QueuePath) (leased : ∀ p ∈ entries, p.dir = .inflight) :
    (worker x).Safe () (fun _ _ => True) (Queue.reclaimExpired entries) s := by
  induction entries generalizing s with
  | nil => exact safe_pure fun _ => trivial
  | cons p rest ih =>
      obtain ⟨here, later⟩ := List.forall_mem_cons.mp leased
      obtain ⟨dir, name⟩ := p
      obtain rfl : dir = .inflight := here
      unfold Queue.reclaimExpired
      split
      · apply (isLeaseExpired_safe _).bind _ trivial
        intro expired t _ _
        cases expired with
        | error e => exact safe_pure fun _ => trivial
        | ok expired =>
        cases expired with
        | true =>
            apply safe_step
            · exact fun _ _ _ effect => rename_opensNone (.inr rfl) effect
            · exact fun _ _ _ _ => ih later
        | false => exact ih later
      · exact ih later

theorem leaseFirst_safe (entries : List QueuePath) (waiting : ∀ p ∈ entries, p.dir = .active) :
    (worker x).Safe () HandedOut (Queue.leaseFirst entries) s := by
  induction entries generalizing s with
  | nil => exact safe_pure fun _ msg handed => nomatch handed
  | cons p rest ih =>
      obtain ⟨here, later⟩ := List.forall_mem_cons.mp waiting
      obtain ⟨dir, name⟩ := p
      obtain rfl : dir = .active := here
      unfold Queue.leaseFirst
      split
      · rename_i named
        apply safe_look rfl
        intro _ there _ _
        cases there with
        | none => exact ih later
        | some there =>
        cases there with
        | true => exact ih later
        | false =>
        apply safe_step fun _ _ _ effect => rename_opensNone (.inl rfl) effect
        intro _ leased _ _
        cases leased with
        | false => exact ih later
        | true =>
        apply safe_look rfl
        intro _ verified _ _
        cases verified with
        | none => exact ih later
        | some verified =>
        cases verified with
        | false => exact ih later
        | true =>
        apply safe_look rfl
        intro _ raw t read
        -- the message goes back, or aside, unless it has a content
        have returns : ∀ dst t, (worker x).Safe () HandedOut
            (.step (.rename ⟨.inflight, name⟩ ⟨dst, name⟩) fun _ => Queue.leaseFirst rest) t := by
          intro dst t
          apply safe_step fun _ _ _ effect => rename_opensNone (.inr rfl) effect
          exact fun _ _ _ _ => ih later
        cases raw with
        | none => exact returns .active t
        | some raw =>
          cases raw with
          | nil => exact returns .permanentFail t
          | cons c raw =>
              obtain ⟨⟨⟨f, found, -⟩, same⟩, -⟩ := read
              intro u _ kept msg handed
              obtain rfl := Option.some.inj handed
              apply kept .inflight (FileName.stem name)
              rw [same, ← Queue.isMsg_path named .inflight]
              exact Option.ne_none_iff_exists'.mpr ⟨f, found⟩
      · exact ih later

theorem fetchReady_safe :
    (worker x).Safe () (fun result s => ∀ fetched, result = .ok fetched → HandedOut fetched s)
      Queue.fetchReady s := by
  apply safe_look rfl
  intro _ leased _ scanned
  cases leased with
  | none => exact safe_pure fun _ _ done => nomatch done
  | some leased =>
      apply (reclaimExpired_safe leased scanned.1.1).bind _ trivial
      intro reclaimed t _ _
      cases reclaimed with
      | error e => exact safe_pure fun _ _ done => nomatch done
      | ok _ =>
          apply safe_look rfl
          intro _ ready _ scanned
          cases ready with
          | none => exact safe_pure fun _ _ done => nomatch done
          | some ready =>
              apply (leaseFirst_safe ready scanned.1.1).map
              intro fetched t handed fetched' done
              obtain rfl := Except.ok.inj done
              exact handed

/-- What a call of a node returns. -/
def Delivers (result : Call × Outcome) (s : QueueState κ) : Prop :=
  ∀ fetched, result.2 = .fetched (.ok fetched) → HandedOut fetched s

theorem fetch_safe : (worker x).Safe () Delivers (callProgram .fetchReady) s := by
  have safe : (worker x).Safe () (fun outcome s => ∀ fetched,
      outcome = .fetched (.ok fetched) → HandedOut fetched s) (Call.program .fetchReady) s := by
    apply fetchReady_safe.map
    rintro result t handed fetched ⟨⟩
    exact handed fetched rfl
  exact safe.map fun _ _ handed => handed

theorem mark_safe {p : QueueProg (Except Exn Unit)} {call : Call}
    (safe : (worker x).Safe () (fun _ _ => True) p s)
    (program : call.program = p.map fun _ => .finished) :
    (worker x).Safe () Delivers (callProgram call) s := by
  rw [callProgram, program]
  have finishes : (worker x).Safe () (fun outcome _ => outcome = Outcome.finished)
      (p.map fun _ => .finished) s := safe.map fun _ _ _ => rfl
  apply finishes.map
  rintro outcome t rfl fetched ⟨⟩

theorem markFail_safe (dst : QueueDir) (msg : QueueMessage) :
    (worker x).Safe () (fun _ _ => True) (Queue.markFail dst msg) s := by
  apply safe_step fun _ _ _ effect => rename_opensNone (.inr rfl) effect
  exact fun _ _ _ _ => safe_pure fun _ => trivial

theorem markSuccess_safe (id : Bytes) :
    (worker x).Safe () (fun _ _ => True) (Queue.markSuccess id) s := by
  apply safe_look rfl
  intro _ there _ _
  cases there with
  | none => exact safe_pure fun _ => trivial
  | some there =>
  cases there with
  | false => exact safe_pure fun _ => trivial
  | true =>
      apply safe_step fun _ _ _ effect => remove_opensNone effect
      intro _ removed _ _
      cases removed with
      | none | some removed => exact safe_pure fun _ => trivial

theorem markCall_safe (msg : QueueMessage) (result : Queue.DeliveryResult) :
    (worker x).Safe () Delivers (callProgram (markCall msg result)) s := by
  apply mark_safe _ (markCall_settles msg result)
  unfold Queue.settle
  split
  · exact markSuccess_safe msg.id
  split
  · exact markFail_safe .permanentFail msg
  · exact markFail_safe .failure msg

end Calls

/-! ## The calls of the producers -/

/-- A message file is put in its place, and none is moved or removed. -/
def Fills : FsOp QueuePath QueueScan → Prop
  | .rename _ _ => False
  | .moveFileEx src _ => ∀ dir id, msgPath dir id ≠ src
  | op => ∀ dir id, msgPath dir id ∉ op.writes

section Producers

variable {κ : Type} {x : κ} {s t : QueueState κ} {id : Bytes}

theorem fills_keeps {op : FsOp QueuePath QueueScan} {r : op.Res} (fills : Fills op)
    (effect : QueueState.sem concurrent x op s r t) : Keeps s t := by
  intro dir id there
  have spared : (∀ q ∈ op.writes, msgPath dir id ≠ concurrent.locate q) →
      t.disk.files (msgPath dir id) ≠ none := by
    intro spares
    rwa [Platform.effect_frame effect.1 spares]
  cases op with
  | rename => exact fills.elim
  | moveFileEx src dst =>
      cases r with
      | false => rwa [effect.1.2]
      | true =>
          obtain ⟨f, -, moved⟩ := effect.1
          rw [moved, Disk.move_files]
          by_cases arrived : msgPath dir id = concurrent.locate dst
          · rw [arrived, Function.update_self]
            exact Option.some_ne_none f
          · have left : msgPath dir id ≠ concurrent.locate src := fills dir id
            rwa [Function.update_of_ne arrived, Function.update_of_ne left]
  | _ =>
      apply spared
      rintro q member rfl
      exact fills dir id member

theorem Keeps.opens (keeps : Keeps s t) (valid : s.Valid) (after : t.Valid)
    (grows : QueueState.Grows s t) (opened : Open t.disk id) :
    Open s.disk id ∨ s.published id = none := by
  by_contra neither
  obtain ⟨closed, published⟩ := not_or.mp neither
  obtain ⟨content, known⟩ := Option.ne_none_iff_exists'.mp published
  have waits : t.delivered id = false := by
    by_contra sent
    exact opened.present (after.gone id (.inr (by simpa using sent)))
  have waited : s.delivered id = false := by
    by_contra sent
    rw [grows.delivered id (by simpa using sent)] at waits
    cases waits
  obtain ⟨dir, f, found, -, -⟩ := valid.held id content known waited
  obtain ⟨place, g, -, -, others⟩ := after.held id content (grows.published id content known) waits
  have there : s.disk.files (msgPath dir id) ≠ none := by simp [found]
  obtain rfl : dir = place := by
    by_contra elsewhere
    exact keeps dir id there (others dir elsewhere)
  apply closed
  rcases opened with active | inflight
  · obtain rfl : .active = dir := by_contra fun other => active (others _ other)
    exact .inl there
  · obtain rfl : .inflight = dir := by_contra fun other => inflight (others _ other)
    exact .inr there

theorem enqueues_fills {op : FsOp QueuePath QueueScan} (enqueues : Queue.Enqueues op) :
    Fills op := by
  cases op with
  | createFile | writeFile | flushFileBuffers | deleteFile =>
      obtain ⟨id, rfl⟩ := enqueues
      intro dir other member
      exact Queue.msgPath_ne_tmpPath dir other id (List.mem_singleton.mp member)
  | moveFileEx src dst =>
      obtain ⟨id, rfl, -⟩ := enqueues
      exact fun dir other => Queue.msgPath_ne_tmpPath dir other id
  | iterate | freshId | closeHandle | fileExists => exact fun _ _ => List.not_mem_nil
  | _ => exact enqueues.elim

theorem recover_fills : Queue.recoverOrphanedTempFiles.Uses Fills := by
  have remove : ∀ entries, (Queue.removeOrphans entries).Uses Fills := by
    intro entries
    induction entries with
    | nil => trivial
    | cons f rest ih =>
        unfold Queue.removeOrphans
        split
        · rename_i temporary
          refine ⟨?_, fun _ => ih⟩
          intro dir id member
          exact Queue.isTmp_ne_msgPath temporary dir id (List.mem_singleton.mp member).symm
        · exact ih
  refine ⟨by simp [Fills, FsOp.writes], fun entries => ?_⟩
  cases entries with
  | none => trivial
  | some entries => exact remove entries

theorem produces_fills {call : Call} (produces : Produces call) : (callProgram call).Uses Fills := by
  have each : call.program.Uses Fills := by
    cases call with
    | enqueue sender recipient raw =>
        have uses := Queue.enqueue_enqueues sender recipient raw
        exact (uses.weaken fun _ => enqueues_fills).bind fun _ => trivial
    | recoverOrphanedTempFiles => exact recover_fills.bind fun _ => trivial
    | _ => exact produces.elim
  exact each.bind fun _ => trivial

end Producers

end EmailServer.Ha
