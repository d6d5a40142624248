import EmailServer.Library.Locking
import EmailServer.Library.Trace
import EmailServer.Virus.SandboxEngine

/-! # When the worker analyses every job

Storing any verdict but a malicious one returns. Flagging a job as malicious never does:
`IOCStore::addHash` calls `save` with the mutex held that `save` locks. So the worker
finishes every job exactly as long as no verdict is malicious and no write throws.
-/

namespace EmailServer.Virus

/-! ## Programs that return, and programs that never do -/

/-- The mutexes that are held after an operation. -/
def locksAfter (locked : Store → Bool) : Op → Store → Bool
  | .lock store => Function.update locked store true
  | .unlock store => Function.update locked store false
  | _ => locked

/-- The operation does not take place. -/
def Blocked (locked : Store → Bool) : Op → Prop
  | .lock store => locked store = true
  | .terminate => True
  | _ => False

/-- What a run has to answer for the worker to go on. -/
def Fine : (op : Op) → Res op → Prop
  | .analyze _ _, verdict => verdict.verdict ≠ .malicious
  | .write _, ok => ok = true
  | _, _ => True

/-- Whatever is answered, `p` does not come to its end. -/
def Never : (Store → Bool) → SandboxProg Unit → Prop
  | _, .pure _ => False
  | locked, .step op next => Blocked locked op ∨ ∀ r, Never (locksAfter locked op) (next r)

/-- While the answers are fine `p` goes on and ends with `exit` locked; after one that is
    not it never ends. -/
def Follows (exit_ : Store → Bool) : (Store → Bool) → SandboxProg Unit → Prop
  | locked, .pure _ => locked = exit_
  | locked, .step op next => ¬ Blocked locked op ∧
      ∀ r, (Fine op r → Follows exit_ (locksAfter locked op) (next r)) ∧
        (¬ Fine op r → Never (locksAfter locked op) (next r))

variable {locked mid exit_ : Store → Bool} {p : SandboxProg Unit} {next : Unit → SandboxProg Unit}

theorem Never.bind (never : Never locked p) : Never locked (p.bind next) := by
  induction p generalizing locked with
  | pure value => exact never.elim
  | step op after ih =>
      rcases never with blocked | rest
      · exact .inl blocked
      · exact .inr fun r => ih r (rest r)

theorem Follows.bind (first : Follows mid locked p) (rest : Follows exit_ mid (next ())) :
    Follows exit_ locked (p.bind next) := by
  induction p generalizing locked with
  | pure value =>
      obtain rfl : locked = mid := first
      exact rest
  | step op after ih =>
      refine ⟨first.1, fun r => ⟨fun fine => ih r ((first.2 r).1 fine), fun other => ?_⟩⟩
      exact ((first.2 r).2 other).bind

theorem Follows.bind_never (first : Follows mid locked p) (rest : Never mid (next ())) :
    Never locked (p.bind next) := by
  induction p generalizing locked with
  | pure value =>
      obtain rfl : locked = mid := first
      exact rest
  | step op after ih =>
      refine .inr fun r => ?_
      by_cases fine : Fine op r
      · exact ih r ((first.2 r).1 fine)
      · exact ((first.2 r).2 fine).bind

/-- No mutex is held. -/
def unlocked : Store → Bool := fun _ => false

/-- Only the mutex of one store is held. -/
def only (store : Store) : Store → Bool := Function.update unlocked store true

theorem Follows.guarded {store : Store} (body : Follows (only store) (only store) p) :
    Follows unlocked unlocked (guarded store p) := by
  refine ⟨by simp [Blocked, unlocked], fun _ => ⟨fun _ => body.bind ?_, fun other => ?_⟩⟩
  · refine ⟨id, fun _ => ⟨fun _ => ?_, fun other => absurd trivial other⟩⟩
    show Function.update (Function.update unlocked store true) store false = unlocked
    rw [Function.update_idem]
    exact Function.update_eq_self store unlocked
  · exact absurd trivial other

theorem saveUnlocked_follows (store : Store) : Follows locked locked (saveUnlocked store) := by
  refine ⟨id, fun ok => ?_⟩
  cases ok with
  | true => exact ⟨fun _ => rfl, fun other => absurd rfl other⟩
  | false => exact ⟨nofun, fun _ => .inl trivial⟩

theorem update_follows (sha256 : Bytes) (verdict : ThreatVerdict) (source : Bytes) :
    Follows unlocked unlocked (HashReputationStore.update sha256 verdict source) := by
  refine .bind (.guarded ?_) (.guarded (saveUnlocked_follows _))
  exact ⟨id, fun _ => ⟨fun _ => rfl, fun other => absurd trivial other⟩⟩

theorem store_follows (r : SandboxResult) :
    Follows unlocked unlocked (SandboxVerdictStore.store r) := by
  refine .bind (.guarded ?_) (.guarded (saveUnlocked_follows _))
  exact ⟨id, fun _ => ⟨fun _ => rfl, fun other => absurd trivial other⟩⟩

/-- `save` locks the mutex that `addHash` holds. -/
theorem addHash_never (sha256 : Bytes) : Never unlocked (IOCStore.addHash sha256) :=
  .inr fun _ => .inr fun _ => .inl (by simp [Blocked, locksAfter])

theorem flag_never (job : Job) (verdict : SandboxResult) : Never unlocked (flag job verdict) :=
  (update_follows _ _ _).bind_never (addHash_never _).bind

theorem analyse_follows (job : Job) (providers : List Nat) :
    Follows unlocked unlocked (analyse job providers) := by
  induction providers with
  | nil => rfl
  | cons provider rest ih =>
      refine ⟨id, fun verdict => ⟨fun fine => ?_, fun other => ?_⟩⟩
      · have notMalicious : verdict.verdict ≠ .malicious := fine
        simp only [if_neg notMalicious]
        split
        · exact store_follows verdict
        · exact ih
      · have malicious : verdict.verdict = .malicious := not_not.mp other
        simp only [if_pos malicious]
        exact flag_never job verdict

theorem sem_locks {op : Op} {s t : Stores} {r : Res op} (effect : sem op s r t) :
    t.locked = locksAfter s.locked op ∧ ¬ Blocked s.locked op := by
  cases op with
  | lock store =>
      obtain ⟨free, rfl⟩ := effect
      exact ⟨rfl, by simp [Blocked, free]⟩
  | terminate => exact effect.elim
  | analyze | write | unlock | setReputation | insertHash | setVerdict =>
      obtain rfl := effect
      exact ⟨rfl, id⟩

theorem sem_exists {op : Op} {s : Stores} (free : ¬ Blocked s.locked op) :
    ∃ r t, sem op s r t ∧ Fine op r := by
  cases op with
  | lock store => exact ⟨(), _, ⟨by simpa [Blocked] using free, rfl⟩, trivial⟩
  | terminate => exact absurd trivial free
  | analyze provider job => exact ⟨⟨job.sha256, .unknown, []⟩, s, rfl, nofun⟩
  | write => exact ⟨true, s, rfl, rfl⟩
  | unlock | setReputation | insertHash | setVerdict => exact ⟨(), _, rfl, trivial⟩

/-! ## The worker's invariants -/

namespace SandboxEngine

variable {s t : SandboxEngine} {l : Label} {past : List (Taken Label SandboxEngine)}

/-- The answer, if it is one, is fine. -/
def Harmless : Label → Prop
  | .operate op r => Fine op r
  | _ => True

/-- The worker can go on. -/
def Healthy (locked : Store → Bool) : Worker → Prop
  | .working _ p => Follows unlocked locked p
  | .killed _ => False
  | _ => locked = unlocked

/-- The worker will never be done with the job in its hand. -/
def Doomed (locked : Store → Bool) : Worker → Prop
  | .working _ p => Never locked p
  | .killed _ => True
  | _ => False

theorem Healthy.notified {locked : Store → Bool} {worker : Worker} (h : Healthy locked worker) :
    Healthy locked worker.notified := by
  cases worker <;> exact h

theorem Doomed.notified {locked : Store → Bool} {worker : Worker} (h : Doomed locked worker) :
    Doomed locked worker.notified := by
  cases worker <;> exact h

theorem notified_job (worker : Worker) : worker.notified.job = worker.job := by
  cases worker <;> rfl

/-- One answer that is not fine dooms the worker. -/
theorem healthy_step (h : Healthy s.stores.locked s.worker) (step : Step s l t) :
    (Harmless l → Healthy t.stores.locked t.worker) ∧
      (¬ Harmless l → Doomed t.stores.locked t.worker) := by
  cases step with
  | submit | stop => exact ⟨fun _ => h, fun other => absurd trivial other⟩
  | notifyOne | notifyAll => exact ⟨fun _ => h.notified, fun other => absurd trivial other⟩
  | wake at_ | lock at_ | wait at_ | leave at_ =>
      rw [at_] at h
      exact ⟨fun _ => h, fun other => absurd trivial other⟩
  | @take job rest at_ =>
      rw [at_] at h
      have free : s.stores.locked = unlocked := h
      refine ⟨fun _ => ?_, fun other => absurd trivial other⟩
      show Follows unlocked s.stores.locked (analyse job s.providers)
      rw [free]
      exact analyse_follows job s.providers
  | @operate job op next r u at_ effect =>
      rw [at_] at h
      have follows := h.2 r
      rw [← (sem_locks effect).1] at follows
      exact follows
  | terminate at_ =>
      rw [at_] at h
      exact absurd trivial h.1
  | finish at_ =>
      rw [at_] at h
      exact ⟨fun _ => h, fun other => absurd trivial other⟩

theorem doomed_step (h : Doomed s.stores.locked s.worker) (step : Step s l t) :
    Doomed t.stores.locked t.worker := by
  cases step with
  | submit | stop => exact h
  | notifyOne | notifyAll => exact h.notified
  | wake at_ | lock at_ | wait at_ | leave at_ | take at_ | finish at_ =>
      rw [at_] at h
      exact h.elim
  | @operate job op next r u at_ effect =>
      rw [at_] at h
      obtain ⟨locks, free⟩ := sem_locks effect
      rcases h with blocked | rest
      · exact absurd blocked free
      · have after := rest r
        rw [← locks] at after
        exact after
  | terminate => trivial

/-- Nothing is lost or taken twice, and no wake-up is lost. -/
structure Orderly (s : SandboxEngine) : Prop where
  queue : s.taken ++ s.queue = s.submitted
  hand : s.finished ++ s.worker.job = s.taken
  left : s.worker = .left → s.running = false ∧ s.queue = []
  awake : s.worker = .waiting →
    s.queue = [] ∧ s.running = true ∨ 0 < s.submitting ∨ s.stopping = true

theorem notified_left {worker : Worker} (h : worker.notified = .left) : worker = .left := by
  cases worker <;> first | exact h | cases h

theorem notified_not_waiting (worker : Worker) : worker.notified ≠ .waiting := by
  cases worker <;> exact nofun

theorem orderly_step (h : Orderly s) (step : Step s l t) : Orderly t := by
  cases step with
  | @submit job free running =>
      refine ⟨?_, h.hand, fun left => ?_, fun _ => .inr (.inl (Nat.succ_pos _))⟩
      · rw [← List.append_assoc, h.queue]
      · exact absurd running (by simp [(h.left left).1])
  | stop =>
      exact ⟨h.queue, h.hand, fun left => ⟨rfl, (h.left left).2⟩, fun _ => .inr (.inr rfl)⟩
  | notifyOne | notifyAll =>
      exact ⟨h.queue, (congrArg (s.finished ++ ·) (notified_job s.worker)).trans h.hand,
        fun left => h.left (notified_left left),
        fun waiting => absurd waiting (notified_not_waiting s.worker)⟩
  | wake at_ | lock at_ =>
      have hand := h.hand
      rw [at_] at hand
      exact ⟨h.queue, hand, nofun, nofun⟩
  | wait at_ empty running =>
      have hand := h.hand
      rw [at_] at hand
      exact ⟨h.queue, hand, nofun, fun _ => .inl ⟨empty, running⟩⟩
  | leave at_ stopped empty =>
      have hand := h.hand
      rw [at_] at hand
      exact ⟨h.queue, hand, fun _ => ⟨stopped, empty⟩, nofun⟩
  | @take job rest at_ front =>
      have hand := h.hand
      rw [at_] at hand
      have queue := h.queue
      rw [front] at queue
      refine ⟨by simpa using queue, ?_, nofun, nofun⟩
      have all : s.finished = s.taken := by simpa [Worker.job] using hand
      simp [Worker.job, all]
  | operate at_ | terminate at_ =>
      have hand := h.hand
      rw [at_] at hand
      exact ⟨h.queue, hand, nofun, nofun⟩
  | finish at_ =>
      have hand := h.hand
      rw [at_] at hand
      exact ⟨h.queue, by simpa [Worker.job] using hand, nofun, nofun⟩

/-! ## The worker comes to its end -/

/-- The threads in the engine go on: nothing is submitted, nobody calls `stop` any more,
    and answers are fine. -/
def Goes (s t : SandboxEngine) : Prop :=
  ∃ l, Step s l t ∧ Harmless l ∧ (∀ job, l ≠ .submit job) ∧ l ≠ .stop

/-- No thread needs a spurious wake-up to go on. -/
def GoesSurely (s t : SandboxEngine) : Prop :=
  ∃ l, Step s l t ∧ Harmless l ∧ (∀ job, l ≠ .submit job) ∧ l ≠ .stop ∧ l ≠ .wake

/-- Every job is finished in the order of the submissions, the queue is empty, and if the
    engine was stopped the worker has left its loop. -/
def Done (s : SandboxEngine) : Prop :=
  s.finished = s.submitted ∧ s.queue = [] ∧ (s.running = false → s.worker = .left)

def stage : Worker → Nat
  | .left | .killed _ => 0
  | .testing => 1
  | .locking => 2
  | .waiting => 3
  | .working _ _ => 4

def rest : Worker → SandboxProg Unit
  | .working _ p => p
  | _ => .pure ()

/-- What is left to do: jobs, the worker's round, its program, notifications. -/
def work (s : SandboxEngine) : Nat × Nat × SandboxProg Unit × Nat :=
  (s.queue.length, stage s.worker, rest s.worker, s.submitting + s.stopping.toNat)

def Less : Nat × Nat × SandboxProg Unit × Nat → Nat × Nat × SandboxProg Unit × Nat → Prop :=
  Prod.Lex (· < ·) (Prod.Lex (· < ·) (Prod.Lex Prog.After (· < ·)))

theorem less_wf : WellFounded Less :=
  (Nat.lt_wfRel.wf).prod_lex (Nat.lt_wfRel.wf.prod_lex (Prog.after_wf.prod_lex Nat.lt_wfRel.wf))

theorem less_notified {queue : Nat} {worker : Worker} {m n : Nat} (fewer : m < n) :
    Less (queue, stage worker.notified, rest worker.notified, m)
      (queue, stage worker, rest worker, n) := by
  cases worker with
  | waiting => exact .right _ (.left _ _ (by decide))
  | locking | testing | working | left | killed => exact .right _ (.right _ (.right _ fewer))

theorem done_of_idle (orderly : Orderly s) (idle : s.worker.job = []) (empty : s.queue = [])
    (running : s.running = true) : Done s := by
  have hand := orderly.hand
  have queue := orderly.queue
  rw [idle, List.append_nil] at hand
  rw [empty, List.append_nil] at queue
  exact ⟨hand.trans queue, empty, fun stopped => absurd running (by simp [stopped])⟩

theorem goes_less (orderly : Orderly s) (healthy : Healthy s.stores.locked s.worker)
    (open_ : ¬ Done s) (goes : Goes s t) : Less (work t) (work s) := by
  obtain ⟨l, step, harmless, noSubmit, noStop⟩ := goes
  cases step with
  | @submit job => exact absurd rfl (noSubmit job)
  | stop => exact absurd rfl noStop
  | notifyOne some_ => exact less_notified (by simp [some_])
  | notifyAll some_ => exact less_notified (by simp [some_])
  | wake at_ | lock at_ | leave at_ | finish at_ =>
      simp only [work, at_]
      exact .right _ (.left _ _ (by simp [stage]))
  | wait at_ empty running =>
      exact absurd (done_of_idle orderly (by rw [at_]; rfl) empty running) open_
  | take at_ front =>
      simp only [work, at_, front]
      exact .left _ _ (Nat.lt_succ_self _)
  | @operate job op next r u at_ effect =>
      simp only [work, at_]
      exact .right _ (.right _ (.left _ _ ⟨op, next, r, rfl, rfl⟩))
  | terminate at_ =>
      rw [at_] at healthy
      exact absurd trivial healthy.1

theorem goes_exists (orderly : Orderly s) (healthy : Healthy s.stores.locked s.worker)
    (open_ : ¬ Done s) : ∃ t, GoesSurely s t := by
  cases at_ : s.worker with
  | locking => exact ⟨_, _, .lock at_, trivial, nofun, nofun, nofun⟩
  | testing =>
      cases front : s.queue with
      | cons job rest => exact ⟨_, _, .take at_ front, trivial, nofun, nofun, nofun⟩
      | nil =>
          cases running : s.running with
          | true => exact ⟨_, _, .wait at_ front running, trivial, nofun, nofun, nofun⟩
          | false => exact ⟨_, _, .leave at_ running front, trivial, nofun, nofun, nofun⟩
  | waiting =>
      rcases orderly.awake at_ with ⟨empty, running⟩ | submitting | stopping
      · exact absurd (done_of_idle orderly (by rw [at_]; rfl) empty running) open_
      · obtain ⟨n, some_⟩ := Nat.exists_eq_succ_of_ne_zero submitting.ne'
        exact ⟨_, _, .notifyOne some_, trivial, nofun, nofun, nofun⟩
      · exact ⟨_, _, .notifyAll stopping, trivial, nofun, nofun, nofun⟩
  | working job p =>
      rw [at_] at healthy
      cases p with
      | pure => exact ⟨_, _, .finish at_, trivial, nofun, nofun, nofun⟩
      | step op next =>
          obtain ⟨r, u, effect, fine⟩ := sem_exists healthy.1
          exact ⟨_, _, .operate at_ effect, fine, nofun, nofun, nofun⟩
  | left =>
      obtain ⟨-, empty⟩ := orderly.left at_
      have hand := orderly.hand
      have queue := orderly.queue
      rw [at_] at hand
      rw [empty, List.append_nil] at queue
      have all : s.finished = s.taken := by simpa [Worker.job] using hand
      exact absurd ⟨all.trans queue, empty, fun _ => at_⟩ open_
  | killed =>
      rw [at_] at healthy
      exact healthy.elim

theorem comes_to_end (orderly : Orderly s) (healthy : Healthy s.stores.locked s.worker) :
    Inevitably GoesSurely Goes Done s := by
  refine .of_measure less_wf work (fun s => Orderly s ∧ Healthy s.stores.locked s.worker) ?_ ?_ ?_
    ⟨orderly, healthy⟩
  · rintro s t ⟨orderly, healthy⟩ ⟨l, step, harmless, -⟩
    exact ⟨orderly_step orderly step, (healthy_step healthy step).1 harmless⟩
  · exact fun s t ⟨orderly, healthy⟩ open_ goes => goes_less orderly healthy open_ goes
  · exact fun s ⟨orderly, healthy⟩ open_ => goes_exists orderly healthy open_

theorem Doomed.never (h : Doomed s.stores.locked s.worker) (orderly : Orderly s) :
    s.worker ≠ .left ∧ s.finished ≠ s.submitted := by
  have hand := orderly.hand
  have queue := orderly.queue
  cases at_ : s.worker with
  | working job | killed job =>
      rw [at_] at hand
      refine ⟨nofun, fun all => ?_⟩
      rw [← queue, ← hand] at all
      simp [Worker.job] at all
  | locking | testing | waiting | left =>
      rw [at_] at h
      exact h.elim

section Runs

theorem orderly_run (h : Orderly s) (run : Trace Step s past t) : Orderly t := by
  induction run with
  | nil => exact h
  | snoc _ step ih => exact orderly_step ih step

theorem doomed_run (h : Doomed s.stores.locked s.worker) (run : Trace Step s past t) :
    Doomed t.stores.locked t.worker := by
  induction run with
  | nil => exact h
  | snoc _ step ih => exact doomed_step ih step

variable {providers : List Nat} {reputations : Bytes → Option HashReputation}
  {hashes : Bytes → Bool} {verdicts : Bytes → Option Bool}

theorem orderly_started : Orderly (started providers reputations hashes verdicts) :=
  ⟨rfl, rfl, nofun, nofun⟩

/-- The worker can go on as long as everything was harmless. -/
theorem healthy_run
    (run : Trace Step (started providers reputations hashes verdicts) past s) :
    ((∀ x ∈ past, Harmless x.label) → Healthy s.stores.locked s.worker) ∧
      (¬ (∀ x ∈ past, Harmless x.label) → Doomed s.stores.locked s.worker) := by
  induction run with
  | nil => exact ⟨fun _ => rfl, fun other => absurd (by simp) other⟩
  | @snoc past s l t _ step ih =>
      simp only [List.forall_mem_append, List.forall_mem_singleton]
      constructor
      · intro ⟨before, last⟩
        exact (healthy_step (ih.1 before) step).1 last
      · intro other
        by_cases before : ∀ x ∈ past, Harmless x.label
        · exact (healthy_step (ih.1 before) step).2 fun last => other ⟨before, last⟩
        · exact doomed_step (ih.2 before) step

/-- In every run the worker takes the jobs off in the order of the submissions, each once.
    As long as no verdict was malicious and no write threw, whatever the schedule, it comes
    to finish every job and, if the engine was stopped, to leave its loop with an empty
    queue. After a malicious verdict or a write that threw it never does. -/
theorem analyses_iff (run : Trace Step (started providers reputations hashes verdicts) past s) :
    s.taken ++ s.queue = s.submitted ∧ s.finished ++ s.worker.job = s.taken ∧
    ((∀ x ∈ past, Harmless x.label) → Inevitably GoesSurely Goes Done s) ∧
    (¬ (∀ x ∈ past, Harmless x.label) → ∀ later t, Trace Step s later t →
      t.worker ≠ .left ∧ t.finished ≠ t.submitted) := by
  have orderly := orderly_run orderly_started run
  obtain ⟨healthy, doomed⟩ := healthy_run run
  refine ⟨orderly.queue, orderly.hand, fun harmless => comes_to_end orderly (healthy harmless), ?_⟩
  intro other later t after
  exact (doomed_run (doomed other) after).never (orderly_run orderly after)

/-! ## One job -/

def attachment : Job := ⟨ascii "9f86d081", ascii "MZ"⟩

/-- One provider, and nothing known yet. -/
def plain : SandboxEngine := started [0] (fun _ => none) (fun _ => false) (fun _ => none)

/-- Submitted, taken, and found malicious by the one provider, before the engine is stopped:
    the worker never leaves its loop. -/
theorem malicious_stuck : ∃ past s, Trace Step plain past s ∧
    past.map Taken.label = [.submit attachment, .notifyOne, .lock, .take attachment,
      .operate (.analyze 0 attachment) ⟨attachment.sha256, .malicious, []⟩, .stop] ∧
    ∀ later t, Trace Step s later t → t.worker ≠ .left ∧ t.finished ≠ t.submitted := by
  have submitted : Trace Step plain _ _ := Trace.nil.snoc (@Step.submit _ attachment trivial rfl)
  have taken := ((submitted.snoc (.notifyOne rfl)).snoc (.lock rfl)).snoc
    (@Step.take _ attachment [] rfl rfl)
  have answered := taken.snoc (@Step.operate _ attachment (.analyze 0 attachment) _
    ⟨attachment.sha256, .malicious, []⟩ _ rfl rfl)
  have run := answered.snoc (.stop (by trivial) rfl)
  refine ⟨_, _, run, rfl, fun later t after => ?_⟩
  have doomed := (healthy_run run).2 fun harmless => ?_
  · exact (doomed_run doomed after).never (orderly_run (orderly_run orderly_started run) after)
  · have fine := harmless _ (List.mem_append_left _ (List.mem_append_right _ List.mem_cons_self))
    exact fine rfl

/-- Submitted before the engine is stopped: whatever the provider returns but a malicious
    verdict, the job is finished and the worker leaves. -/
theorem stopped_done : ∃ past s, Trace Step plain past s ∧
    past.map Taken.label = [.submit attachment, .stop] ∧ Inevitably GoesSurely Goes Done s := by
  have submitted : Trace Step plain _ _ := Trace.nil.snoc (@Step.submit _ attachment trivial rfl)
  have run := submitted.snoc (.stop (by trivial) rfl)
  exact ⟨_, _, run, rfl, (analyses_iff run).2.2.1 (by simp [Harmless])⟩

end Runs

end SandboxEngine

end EmailServer.Virus
