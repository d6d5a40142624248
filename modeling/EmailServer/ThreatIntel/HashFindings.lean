import EmailServer.Queue.Calls
import EmailServer.Virus.Analysis

/-! # What the sandbox finds

`RetryWorker` hands every message it has fetched to the sandbox under its queue id, in the
place where the sandbox takes a hash. A malicious verdict is recorded under that id, and a
lookup by the hash of the content does not find it.
-/

namespace EmailServer.ThreatIntel

open Virus (Job HashReputation ThreatVerdict SandboxEngine SandboxProg SandboxResult Op Res Stores
  Worker)
open Virus.SandboxEngine (started)

/-! ## Looking up a hash -/

structure SpamTest where
  name : Bytes
  score : Rat
  deriving DecidableEq

structure SpamResult where
  totalScore : Rat := 0
  tests : List SpamTest := []
  deriving Inhabited

/-- The test for a hash that is known to be malicious. -/
def hashTest : SpamTest := ⟨ascii "THREAT_INTEL_HASH", 10⟩

def suspectTest : SpamTest := ⟨ascii "THREAT_INTEL_SUSPECT", 4⟩

def SpamResult.add (r : SpamResult) (test : SpamTest) : SpamResult :=
  { r with tests := r.tests ++ [test], totalScore := r.totalScore + test.score }

/-- With the reputations that `HashReputationStore::lookup` finds. -/
def applyHashIntel (reputations : Bytes → Option HashReputation) (r : SpamResult)
    (sha256 : Bytes) : SpamResult :=
  match reputations sha256 with
  | none => r
  | some rep =>
      match rep.verdict with
      | .malicious => r.add hashTest
      | .suspicious => r.add suspectTest
      | .clean => r

/-- The test is added exactly for what is known to be malicious. -/
theorem applyHashIntel_adds {reputations : Bytes → Option HashReputation} {r : SpamResult}
    {sha256 : Bytes} :
    (applyHashIntel reputations r sha256).tests = r.tests ++ [hashTest] ↔
      ∃ rep, reputations sha256 = some rep ∧ rep.verdict = .malicious := by
  have other : suspectTest ≠ hashTest := by decide
  unfold applyHashIntel
  cases reputations sha256 with
  | none => simp
  | some rep => cases known : rep.verdict <;> simp [SpamResult.add, known, other]

/-! ## What the worker records -/

/-- What the worker records of a malicious job. -/
def bySandbox : HashReputation := ⟨.malicious, ascii "sandbox"⟩

/-- The operation is one for this job, and nothing is recorded but a malicious verdict. -/
def Allows (job : Job) (called : Prop) : Op → Prop
  | .analyze _ other => other = job
  | .setReputation key reputation => called ∧ key = job.sha256 ∧ reputation = bySandbox
  | _ => True

/-- Whether the job has been called malicious after an operation. -/
def calledAfter (called : Prop) : (op : Op) → Res op → Prop
  | .analyze _ _, verdict => called ∨ verdict.verdict = .malicious
  | _, _ => called

/-- The program records nothing of the job before it has been called malicious. -/
def Records (job : Job) : Prop → SandboxProg Unit → Prop
  | _, .pure _ => True
  | called, .step op next =>
      Allows job called op ∧ ∀ r, Records job (calledAfter called op r) (next r)

section Programs

variable {job : Job} {called called' : Prop} {p : SandboxProg Unit}
  {next : Unit → SandboxProg Unit}

theorem Records.mono (records : Records job called p) (weaker : called → called') :
    Records job called' p := by
  induction p generalizing called called' with
  | pure => trivial
  | step op after ih =>
      obtain ⟨allows, rest⟩ := records
      refine ⟨?_, fun r => ih r (rest r) ?_⟩
      · cases op with
        | setReputation => exact ⟨weaker allows.1, allows.2⟩
        | _ => exact allows
      · cases op with
        | analyze => exact Or.imp_left weaker
        | _ => exact weaker

theorem Records.bind (first : Records job called p) (rest : Records job called (next ())) :
    Records job called (p.bind next) := by
  induction p generalizing called with
  | pure => exact rest
  | step op after ih =>
      refine ⟨first.1, fun r => ih r (first.2 r) (rest.mono ?_)⟩
      cases op with
      | analyze => exact Or.inl
      | _ => exact id

theorem Records.guarded {store : Virus.Store} (body : Records job called p) :
    Records job called (Virus.guarded store p) :=
  ⟨trivial, fun _ => body.bind ⟨trivial, fun _ => trivial⟩⟩

theorem saveUnlocked_records (store : Virus.Store) :
    Records job called (Virus.saveUnlocked store) := by
  refine ⟨trivial, fun ok => ?_⟩
  cases ok with
  | true => trivial
  | false => exact ⟨trivial, fun _ => trivial⟩

theorem store_records (verdict : SandboxResult) :
    Records job called (Virus.SandboxVerdictStore.store verdict) :=
  .bind (.guarded ⟨trivial, fun _ => trivial⟩) (.guarded (saveUnlocked_records _))

theorem flag_records (verdict : SandboxResult) (malicious : called) :
    Records job called (Virus.flag job verdict) := by
  refine .bind (.bind (.guarded ⟨⟨malicious, rfl, rfl⟩, fun _ => trivial⟩)
    (.guarded (saveUnlocked_records _))) (.bind ?_ (store_records verdict))
  exact .guarded ⟨trivial, fun _ => .guarded ⟨trivial, fun _ => trivial⟩⟩

theorem analyse_records (job : Job) (providers : List Nat) :
    Records job called (Virus.analyse job providers) := by
  induction providers generalizing called with
  | nil => trivial
  | cons provider rest ih =>
      refine ⟨rfl, fun verdict => ?_⟩
      dsimp only
      split
      · rename_i malicious
        exact flag_records verdict (.inr malicious)
      split
      · exact store_records verdict
      · exact ih

end Programs

/-! ## Runs of the engine -/

abbrev EngineRun := List (Taken SandboxEngine.Label SandboxEngine)

/-- A provider has called the job malicious. -/
def Called (past : EngineRun) (job : Job) : Prop :=
  ∃ x ∈ past, ∃ provider verdict,
    x.label = .operate (.analyze provider job) verdict ∧ verdict.verdict = .malicious

/-- The worker has recorded a malicious verdict under this key. -/
def RecordedUnder (past : EngineRun) (key : Bytes) : Prop :=
  ∃ x ∈ past, x.label = .operate (.setReputation key bySandbox) ()

/-- The job has been called malicious, and that has been recorded. -/
structure Finding (past : EngineRun) (job : Job) : Prop where
  called : Called past job
  recorded : RecordedUnder past job.sha256

section Engine

variable {past : EngineRun} {s t : SandboxEngine} {l : SandboxEngine.Label} {job : Job}
  {reputations : Bytes → Option HashReputation} {key : Bytes}

theorem Called.later (called : Called past job) (more : EngineRun) : Called (past ++ more) job := by
  obtain ⟨x, inPast, provider, verdict, label, malicious⟩ := called
  exact ⟨x, List.mem_append_left _ inPast, provider, verdict, label, malicious⟩

/-- The reputations are the loaded ones and those recorded since, and every key recorded is
    that of a job called malicious. -/
structure Tracks (reputations : Bytes → Option HashReputation) (past : EngineRun)
    (s : SandboxEngine) : Prop where
  worker : ∀ job p, s.worker = .working job p → Records job (Called past job) p
  fresh : ∀ key, ¬ RecordedUnder past key → s.stores.reputations key = reputations key
  known : ∀ key, RecordedUnder past key → s.stores.reputations key = some bySandbox ∧
    ∃ job, job.sha256 = key ∧ Called past job

theorem recordedUnder_concat {x : Taken SandboxEngine.Label SandboxEngine} :
    RecordedUnder (past ++ [x]) key ↔
      RecordedUnder past key ∨ x.label = .operate (.setReputation key bySandbox) () := by
  simp [RecordedUnder, or_and_right, exists_or]

theorem Tracks.quiet (tracks : Tracks reputations past s)
    (quiet : ∀ key, l ≠ .operate (.setReputation key bySandbox) ())
    (stores : t.stores.reputations = s.stores.reputations)
    (worker : ∀ job p, t.worker = .working job p → Records job (Called (past ++ [⟨l, s, t⟩]) job) p) :
    Tracks reputations (past ++ [⟨l, s, t⟩]) t := by
  refine ⟨worker, fun key absent => ?_, fun key there => ?_⟩
  · rw [stores]
    exact tracks.fresh key fun before => absent (recordedUnder_concat.mpr (.inl before))
  · obtain ⟨known, job, same, called⟩ :=
      tracks.known key ((recordedUnder_concat.mp there).resolve_right (quiet key))
    exact ⟨stores ▸ known, job, same, called.later _⟩

theorem Tracks.operate (tracks : Tracks reputations past s) {op : Op} {r : Res op}
    {next : Res op → SandboxProg Unit} {u : Stores} (at_ : s.worker = .working job (.step op next))
    (effect : Virus.sem op s.stores r u)
    (after : t = { s with stores := u, worker := .working job (next r) }) :
    Tracks reputations (past ++ [⟨.operate op r, s, t⟩]) t := by
  obtain ⟨allows, rest⟩ := tracks.worker job _ at_
  have worker : ∀ other p, t.worker = .working other p →
      Records other (Called (past ++ [⟨.operate op r, s, t⟩]) other) p := by
    intro other p at_
    rw [after] at at_
    obtain ⟨rfl, rfl⟩ := Worker.working.inj at_
    refine (rest r).mono fun called => ?_
    cases op with
    | analyze provider other =>
        obtain rfl : other = job := allows
        rcases called with before | malicious
        · exact before.later _
        · exact ⟨_, List.mem_append_right _ (List.mem_singleton_self _), provider, r, rfl, malicious⟩
    | _ => exact Called.later called _
  cases op with
  | setReputation key reputation =>
      obtain ⟨called, rfl, rfl⟩ := allows
      have stores : t.stores.reputations =
          Function.update s.stores.reputations job.sha256 (some bySandbox) := by
        rw [after, show u = _ from effect]
      refine ⟨worker, fun other absent => ?_, fun other there => ?_⟩
      · have different : other ≠ job.sha256 := by
          rintro rfl
          exact absent (recordedUnder_concat.mpr (.inr rfl))
        rw [stores, Function.update_of_ne different]
        exact tracks.fresh other fun before => absent (recordedUnder_concat.mpr (.inl before))
      · by_cases same : other = job.sha256
        · rw [stores, same]
          exact ⟨Function.update_self .., job, rfl, called.later _⟩
        · have before : RecordedUnder past other := by
            refine (recordedUnder_concat.mp there).resolve_right fun label => same ?_
            cases label
            rfl
          obtain ⟨known, finding⟩ := tracks.known other before
          rw [stores, Function.update_of_ne same]
          exact ⟨known, finding.imp fun _ finding => ⟨finding.1, finding.2.later _⟩⟩
  | lock => exact tracks.quiet (by simp) (by rw [after, effect.2]) worker
  | terminate => exact effect.elim
  | analyze | unlock | insertHash | setVerdict | write =>
      exact tracks.quiet (by simp) (by rw [after, show u = _ from effect]) worker

theorem Tracks.step (tracks : Tracks reputations past s) (step : SandboxEngine.Step s l t) :
    Tracks reputations (past ++ [⟨l, s, t⟩]) t := by
  have same : t.worker = s.worker → ∀ job p, t.worker = .working job p →
      Records job (Called (past ++ [⟨l, s, t⟩]) job) p := fun unchanged job p at_ =>
    (tracks.worker job p (unchanged ▸ at_)).mono fun called => called.later _
  cases step with
  | submit | stop => exact tracks.quiet (by simp) rfl (same rfl)
  | notifyOne | notifyAll =>
      refine tracks.quiet (by simp) rfl fun job p at_ => ?_
      have before : s.worker = .working job p := by
        cases worker : s.worker <;> simp_all [Worker.notified]
      exact (tracks.worker job p before).mono fun called => called.later _
  | wake | lock | wait | leave | terminate | finish =>
      exact tracks.quiet (by simp) rfl (by simp)
  | @take job rest at_ front =>
      refine tracks.quiet (by simp) rfl fun other p at_ => ?_
      obtain ⟨rfl, rfl⟩ := Worker.working.inj at_
      exact analyse_records _ _
  | operate at_ effect => exact tracks.operate at_ effect rfl

theorem tracks_run {providers : List Nat} {hashes : Bytes → Bool} {verdicts : Bytes → Option Bool}
    (run : Trace SandboxEngine.Step (started providers reputations hashes verdicts) past s) :
    Tracks reputations past s := by
  induction run with
  | nil => exact ⟨by simp [started], fun _ _ => rfl, by simp [RecordedUnder]⟩
  | snoc _ step ih => exact ih.step step

theorem called_taken {providers : List Nat} {hashes : Bytes → Bool}
    {verdicts : Bytes → Option Bool}
    (run : Trace SandboxEngine.Step (started providers reputations hashes verdicts) past s)
    (called : Called past job) : job ∈ s.taken := by
  induction run with
  | nil => simp [Called] at called
  | @snoc past s l t run step ih =>
      have later : s.taken ⊆ t.taken := by
        cases step with
        | take => exact List.subset_append_left _ _
        | _ => exact List.Subset.refl _
      obtain ⟨x, inPast, provider, verdict, label, malicious⟩ := called
      rcases List.mem_append.mp inPast with earlier | last
      · exact later (ih ⟨x, earlier, provider, verdict, label, malicious⟩)
      · obtain rfl := List.mem_singleton.mp last
        obtain rfl : l = .operate (.analyze provider job) verdict := label
        cases step with
        | @operate hand _ next _ u at_ effect =>
            obtain rfl : job = hand := ((tracks_run run).worker hand _ at_).1
            have orderly := SandboxEngine.orderly_run SandboxEngine.orderly_started run
            rw [← orderly.hand, at_]
            simp [Worker.job]

end Engine

/-! ## Queue and sandbox -/

open Queue (Call Outcome QueuePool QueueStep QueueState Deliver QueueMessage)

/-- The queue with its workers, and the sandbox. -/
structure MailScanning (ι : Type) where
  queue : QueuePool ι
  engine : SandboxEngine

/-- The jobs that passes of `runOnce` hand over when they are done with the queue: the queue id
    in the place of the hash, and the data. -/
def handedOver (returned : List (Call × Outcome)) : List Job :=
  returned.filterMap fun
    | (.runOnce _ _, .fetched (.ok (some msg))) =>
        if msg.rawData = [] then none else some ⟨msg.id, msg.rawData⟩
    | _ => none

namespace MailScanning

inductive Label where
  | queue
  | engine (l : SandboxEngine.Label)

def Label.engineStep : Label → Option SandboxEngine.Label
  | .queue => none
  | .engine l => some l

/-- A step of the queue, or one of the sandbox; only what was handed over is submitted. -/
inductive Step {ι : Type} [DecidableEq ι] : MailScanning ι → Label → MailScanning ι → Prop
  | queue {s q} : QueueStep s.queue q → Step s .queue { s with queue := q }
  | engine {s l e} : SandboxEngine.Step s.engine l e →
      (∀ job, l = .submit job →
        (s.engine.submitted ++ [job]).Subperm (handedOver s.queue.returned)) →
      Step s (.engine l) { s with engine := e }

/-- A process that has just started on what is in the queue. -/
def start {ι : Type} (shared : QueueState ι) (engine : SandboxEngine) : MailScanning ι :=
  ⟨Pool.start shared, engine⟩

end MailScanning

section System

variable {ι : Type} [DecidableEq ι]

/-- The part that the sandbox takes in a run. -/
def engineRun (past : List (Taken MailScanning.Label (MailScanning ι))) : EngineRun :=
  past.filterMap fun x =>
    x.label.engineStep.map fun l => ⟨l, x.before.engine, x.after.engine⟩

/-- The message was fetched by a pass of `runOnce`, a provider has called it malicious, and the
    worker has recorded that. -/
structure FoundMalicious (past : List (Taken MailScanning.Label (MailScanning ι)))
    (s : MailScanning ι) (msg : QueueMessage) : Prop where
  fetched : ∃ deliver logs,
    (Call.runOnce deliver logs, Outcome.fetched (.ok (some msg))) ∈ s.queue.returned
  finding : Finding (engineRun past) ⟨msg.id, msg.rawData⟩

/-- A message with this content was found malicious. -/
def ContentFound (past : List (Taken MailScanning.Label (MailScanning ι))) (s : MailScanning ι)
    (raw : Bytes) : Prop :=
  ∃ sender recipient msg, FoundMalicious past s msg ∧
    s.queue.shared.published msg.id = some (Queue.enqueuedContent sender recipient raw)

/-- A lookup by the hash of the content adds the test for everything found malicious. -/
def FindsByContent (sha256 : Bytes → Bytes)
    (past : List (Taken MailScanning.Label (MailScanning ι))) (s : MailScanning ι) : Prop :=
  ∀ raw, ContentFound past s raw → ∀ r,
    (applyHashIntel s.engine.stores.reputations r (sha256 raw)).tests = r.tests ++ [hashTest]

variable {past : List (Taken MailScanning.Label (MailScanning ι))} {s : MailScanning ι}
  {shared : QueueState ι} {providers : List Nat} {reputations : Bytes → Option HashReputation}
  {hashes : Bytes → Bool} {verdicts : Bytes → Option Bool}

theorem engine_run
    (run : Trace MailScanning.Step
      (.start shared (started providers reputations hashes verdicts)) past s) :
    Trace SandboxEngine.Step (started providers reputations hashes verdicts) (engineRun past)
      s.engine := by
  refine @Trace.project _ _ _ _ _ _ _ _ _ MailScanning.engine MailScanning.Label.engineStep run
    ?_ ?_
  · intro s l t step quiet
    cases step with
    | queue => rfl
    | engine => cases quiet
  · intro s l t l' step moved
    cases step with
    | queue => cases moved
    | engine taken =>
        cases moved
        exact taken

theorem submitted_handedOver
    (run : Trace MailScanning.Step
      (.start shared (started providers reputations hashes verdicts)) past s) :
    s.engine.submitted.Subperm (handedOver s.queue.returned) := by
  induction run with
  | nil => exact List.nil_subperm
  | snoc _ step ih =>
      cases step with
      | queue moves =>
          cases moves with
          | finish => exact ih.trans ((List.sublist_cons_self _ _).filterMap _).subperm
          | call | operate | die | around => exact ih
      | engine taken submits =>
          cases taken with
          | submit => exact submits _ rfl
          | _ => exact ih

/-- What is called malicious is a message that a pass of `runOnce` has fetched. -/
theorem called_handedOver
    (run : Trace MailScanning.Step
      (.start shared (started providers reputations hashes verdicts)) past s) {job : Job}
    (called : Called (engineRun past) job) :
    ∃ deliver logs msg,
      (Call.runOnce deliver logs, Outcome.fetched (.ok (some msg))) ∈ s.queue.returned ∧
      job = ⟨msg.id, msg.rawData⟩ := by
  have taken := called_taken (engine_run run) called
  have orderly := SandboxEngine.orderly_run SandboxEngine.orderly_started (engine_run run)
  have submitted : job ∈ s.engine.submitted := by
    rw [← orderly.queue]
    exact List.mem_append_left _ taken
  obtain ⟨result, returned, handed⟩ :=
    List.mem_filterMap.mp ((submitted_handedOver run).subset submitted)
  split at handed
  · rename_i deliver logs msg
    split at handed
    · cases handed
    · exact ⟨deliver, logs, msg, returned, (Option.some.inj handed).symm⟩
  · cases handed

/-- In every run, whatever the loaded reputations: what was found malicious is found by its
    content if and only if its hash was known to be malicious when the process started, or is
    the queue id of a message found malicious. -/
theorem finds_by_content_iff (sha256 : Bytes → Bytes)
    (run : Trace MailScanning.Step
      (.start shared (started providers reputations hashes verdicts)) past s) :
    FindsByContent sha256 past s ↔
      ∀ raw, ContentFound past s raw →
        (∃ rep, reputations (sha256 raw) = some rep ∧ rep.verdict = .malicious) ∨
          ∃ msg, FoundMalicious past s msg ∧ msg.id = sha256 raw := by
  have tracks := tracks_run (engine_run run)
  refine forall₂_congr fun raw _ => ?_
  simp only [applyHashIntel_adds, forall_const]
  by_cases recorded : RecordedUnder (engineRun past) (sha256 raw)
  · obtain ⟨known, job, same, called⟩ := tracks.known _ recorded
    obtain ⟨deliver, logs, msg, fetched, rfl⟩ := called_handedOver run called
    have found : FoundMalicious past s msg := ⟨⟨deliver, logs, fetched⟩, called, same ▸ recorded⟩
    exact ⟨fun _ => .inr ⟨msg, found, same⟩, fun _ => ⟨_, known, rfl⟩⟩
  · rw [tracks.fresh _ recorded]
    refine ⟨.inl, fun either => either.resolve_right ?_⟩
    intro ⟨msg, found, same⟩
    exact recorded (same ▸ found.finding.recorded)

end System

/-! ## One message -/

/-- Steps of the queue are steps that the sandbox takes no part in. -/
theorem queue_steps {ι : Type} [DecidableEq ι] {from_ s : MailScanning ι}
    {past : List (Taken MailScanning.Label (MailScanning ι))} {q : QueuePool ι}
    (run : Trace MailScanning.Step from_ past s) (steps : Relation.ReflTransGen QueueStep s.queue q) :
    ∃ later, Trace MailScanning.Step from_ later { s with queue := q } ∧
      engineRun later = engineRun past := by
  induction steps with
  | refl => exact ⟨past, run, rfl⟩
  | tail _ step ih =>
      obtain ⟨later, run, same⟩ := ih
      refine ⟨_, run.snoc (.queue step), ?_⟩
      rw [← same]
      simp [engineRun, MailScanning.Label.engineStep]

/-- The content of one message, and the message as it is fetched. -/
def sampleContent : Bytes := Queue.enqueuedContent (ascii "a@x") (ascii "b@y") (ascii "hi")

def sampleMessage : QueueMessage := Queue.parseMessage (Queue.idText 0 0) sampleContent

/-- No delivery comes to an end. -/
def deferring : Deliver := fun _ _ _ => .ok ⟨false, false, [], 0⟩

theorem sample_fetched : ∃ q : QueuePool Unit,
    Relation.ReflTransGen QueueStep (Pool.start (QueueState.initial 0)) q ∧
      q.shared.published sampleMessage.id = some sampleContent ∧
      q.returned = [(.runOnce deferring {}, .fetched (.ok (some sampleMessage))),
        (.enqueue (ascii "a@x") (ascii "b@y") (ascii "hi"),
          .enqueued (.ok (Queue.idText 0 0)))] := by
  have enqueued : (Queue.enqueue (ascii "a@x") (ascii "b@y") (ascii "hi")).Runs
      (QueueState.sem Queue.concurrent ()) (QueueState.initial 0) (.ok (Queue.idText 0 0))
      (Queue.oneMessage () (Queue.msgPath .active (Queue.idText 0 0)) (Queue.idText 0 0)
        sampleContent 0 0) := Queue.enqueue_first Queue.exactScan_covers (by decide) 0 0 0
  have fetched : Queue.fetchReady.Runs (QueueState.sem Queue.concurrent ())
      (Queue.oneMessage () (Queue.msgPath .active (Queue.idText 0 0)) (Queue.idText 0 0)
        sampleContent 0 0) (.ok (some sampleMessage)) _ :=
    Queue.fetchReady_waiting Queue.exactScan_covers (Queue.idText_ne_nil 0 0) (by decide)
  have passed : (Queue.runOnce deferring {}).Runs (QueueState.sem Queue.concurrent ())
      (Queue.oneMessage () (Queue.msgPath .active (Queue.idText 0 0)) (Queue.idText 0 0)
        sampleContent 0 0) (.ok (some sampleMessage)) _ :=
    Prog.runs_bind.mpr ⟨_, _, fetched, Prog.runs_map.mpr
      ⟨.ok (), ⟨true, _, Queue.rename_one _ (Queue.msgPath .failure (Queue.idText 0 0)), rfl, rfl⟩,
        rfl⟩⟩
  have first : Relation.ReflTransGen QueueStep (Pool.start (QueueState.initial 0)) _ :=
    Pool.call_alone _ rfl ⟨.enqueue (ascii "a@x") (ascii "b@y") (ascii "hi"), rfl⟩
      (Prog.runs_map.mpr ⟨_, Prog.runs_map.mpr ⟨_, enqueued, rfl⟩, rfl⟩)
  have second := first.trans (Pool.call_alone _ rfl ⟨.runOnce deferring {}, rfl⟩
    (Prog.runs_map.mpr ⟨_, Prog.runs_map.mpr ⟨_, passed, rfl⟩, rfl⟩))
  have published : (Queue.oneMessage () (Queue.msgPath .failure (Queue.idText 0 0))
      (Queue.idText 0 0) sampleContent 0 0).published (Queue.idText 0 0) = some sampleContent := by
    simp [Queue.oneMessage]
  exact ⟨_, second, published, rfl⟩

/-- The job that is handed over. -/
def sampleJob : Job := ⟨sampleMessage.id, sampleMessage.rawData⟩

theorem sample_found (reputations : Bytes → Option HashReputation) :
    ∃ past s, Trace MailScanning.Step (.start (QueueState.initial 0 : QueueState Unit)
        (started [0] reputations (fun _ => false) (fun _ => none))) past s ∧
      ContentFound past s (ascii "hi") ∧
      s.engine.stores.reputations =
        Function.update reputations (Queue.idText 0 0) (some bySandbox) := by
  obtain ⟨q, steps, published, returned⟩ := sample_fetched
  have idle : Trace MailScanning.Step (.start (QueueState.initial 0 : QueueState Unit)
      (started [0] reputations (fun _ => false) (fun _ => none))) [] _ := .nil
  obtain ⟨past, run, same⟩ := queue_steps idle steps
  have submitted := run.snoc (.engine (@SandboxEngine.Step.submit _ sampleJob trivial rfl) (by
    intro job label
    cases label
    show [sampleJob].Subperm (handedOver q.returned)
    rw [returned]
    exact .refl _))
  have answered := ((submitted.snoc (.engine (.lock rfl) (by simp))).snoc
    (.engine (@SandboxEngine.Step.take _ sampleJob [] rfl rfl) (by simp))).snoc
    (.engine (@SandboxEngine.Step.operate _ sampleJob (.analyze 0 sampleJob) _
      ⟨sampleJob.sha256, .malicious, []⟩ _ rfl rfl) (by simp))
  have locked := answered.snoc (.engine (@SandboxEngine.Step.operate _ sampleJob
    (.lock .hashReputation) _ () _ rfl ⟨rfl, rfl⟩) (by simp))
  have recorded := locked.snoc (.engine (@SandboxEngine.Step.operate _ sampleJob
    (.setReputation sampleJob.sha256 bySandbox) _ () _ rfl rfl) (by simp))
  refine ⟨_, _, recorded, ⟨ascii "a@x", ascii "b@y", sampleMessage, ⟨⟨deferring, {}, ?_⟩, ?_⟩, published⟩,
    rfl⟩
  · show _ ∈ q.returned
    simp [returned]
  · have joined : ∀ (past : List (Taken MailScanning.Label (MailScanning Unit))) l s t,
        engineRun (past ++ [⟨.engine l, s, t⟩]) = engineRun past ++ [⟨l, s.engine, t.engine⟩] := by
      intro past l s t
      simp [engineRun, MailScanning.Label.engineStep]
    simp only [joined]
    refine ⟨.later (.later ?_ _) _, recordedUnder_concat.mpr (.inr rfl)⟩
    exact ⟨_, List.mem_append_right _ (List.mem_singleton_self _), 0, _, rfl, rfl⟩

/-- A content whose hash was known to be malicious before. -/
theorem finds_by_content_known : ∃ past s,
    Trace MailScanning.Step (.start (QueueState.initial 0 : QueueState Unit)
      (started [0] (fun _ => some bySandbox) (fun _ => false) (fun _ => none))) past s ∧
    ContentFound past s (ascii "hi") ∧ FindsByContent (ascii "sha256:" ++ ·) past s := by
  obtain ⟨past, s, run, found, -⟩ := sample_found fun _ => some bySandbox
  refine ⟨past, s, run, found, (finds_by_content_iff (ascii "sha256:" ++ ·) run).mpr ?_⟩
  exact fun _ _ => .inl ⟨bySandbox, rfl, rfl⟩

/-- A verdict on the content `hi` is not found by its hash. -/
theorem finding_missed : ∃ (sha256 : Bytes → Bytes) (past : _) (s : _),
    Function.Injective sha256 ∧
    Trace MailScanning.Step (.start (QueueState.initial 0 : QueueState Unit)
      (started [0] (fun _ => none) (fun _ => false) (fun _ => none))) past s ∧
    ContentFound past s (ascii "hi") ∧
    (applyHashIntel s.engine.stores.reputations {} (sha256 (ascii "hi"))).tests = [] := by
  obtain ⟨past, s, run, found, stores⟩ := sample_found fun _ => none
  refine ⟨(ascii "sha256:" ++ ·), past, s, fun _ _ => List.append_cancel_left, run, found, ?_⟩
  have unknown : s.engine.stores.reputations (ascii "sha256:" ++ ascii "hi") = none := by
    rw [stores, Function.update_of_ne (by decide)]
  rw [applyHashIntel, unknown]

end EmailServer.ThreatIntel
