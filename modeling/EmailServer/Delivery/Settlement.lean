import EmailServer.Delivery.Outcome

/-! # Where the retry worker leaves a message

A pass of the worker is a fetch followed by an attempt. Between the two, and up
to the mark that ends the attempt, other workers may do anything to the queue
as long as the message is still in `inflight` when it is marked.
-/

namespace EmailServer.Delivery

open Queue QueueState

/-- What `runOnce` does with the message it has fetched. -/
def attempt (deliver : Deliver) (logs : PassLogs) (msg : QueueMessage) :
    QueueProg (Except Exn (Option QueueMessage)) :=
  (process deliver logs msg).map fun
    | .error e => .error e
    | .ok () => .ok (some msg)

section Attempt

variable {ι : Type} {i : ι} {fails : FsOp QueuePath QueueScan → Prop}
  {lists : Disk QueuePath → QueueScan → List QueuePath → Prop} {s t : QueueState ι}
  {connections : Bytes → Nat → Network} {logs : PassLogs} {lookups : LookupLogs}
  {msg : QueueMessage}

theorem runOnce_runs {deliver : Deliver} {logs : PassLogs}
    {outcome : Except Exn (Option QueueMessage)} :
    (runOnce deliver logs).Runs (sem (platform fails lists) i) s outcome t ↔
      (∃ e, fetchReady.Runs (sem (platform fails lists) i) s (.error e) t ∧ outcome = .error e) ∨
      (fetchReady.Runs (sem (platform fails lists) i) s (.ok none) t ∧ outcome = .ok none) ∨
      ∃ msg fetched, fetchReady.Runs (sem (platform fails lists) i) s (.ok (some msg)) fetched ∧
        (attempt deliver logs msg).Runs (sem (platform fails lists) i) fetched outcome t := by
  rw [runOnce, Prog.runs_bind]
  constructor
  · intro ⟨result, fetched, fetch, rest⟩
    match result with
    | .error e =>
        obtain ⟨rfl, rfl⟩ := rest
        exact .inl ⟨e, fetch, rfl⟩
    | .ok none =>
        obtain ⟨rfl, rfl⟩ := rest
        exact .inr (.inl ⟨fetch, rfl⟩)
    | .ok (some msg) => exact .inr (.inr ⟨msg, fetched, fetch, rest⟩)
  · intro cases
    rcases cases with ⟨e, fetch, rfl⟩ | ⟨fetch, rfl⟩ | ⟨msg, fetched, fetch, rest⟩
    · exact ⟨_, t, fetch, rfl, rfl⟩
    · exact ⟨_, t, fetch, rfl, rfl⟩
    · exact ⟨_, fetched, fetch, rest⟩

theorem leaseFirst_nonempty {entries : List QueuePath}
    (leased : (leaseFirst entries).Returns (some msg)) : msg.rawData ≠ [] := by
  induction entries with
  | nil => cases leased
  | cons f rest ih =>
      unfold leaseFirst at leased
      split at leased
      · obtain ⟨there, leased⟩ := leased
        cases there with
        | none => exact ih leased
        | some there =>
        cases there with
        | true => exact ih leased
        | false =>
        obtain ⟨renamed, leased⟩ := leased
        cases renamed with
        | false => exact ih leased
        | true =>
        obtain ⟨verified, leased⟩ := leased
        cases verified with
        | none => exact ih leased
        | some verified =>
        cases verified with
        | false => exact ih leased
        | true =>
        obtain ⟨raw, leased⟩ := leased
        cases raw with
        | none =>
            obtain ⟨_, leased⟩ := leased
            exact ih leased
        | some raw =>
        cases raw with
        | nil =>
            obtain ⟨_, leased⟩ := leased
            exact ih leased
        | cons c raw =>
            cases leased
            exact List.cons_ne_nil c raw
      · exact ih leased

/-- No fetched message is empty, whatever happens during the fetch. -/
theorem fetchReady_nonempty (leased : fetchReady.Returns (.ok (some msg))) : msg.rawData ≠ [] := by
  obtain ⟨entries, leased⟩ := leased
  cases entries with
  | none => cases leased
  | some entries =>
      obtain ⟨reclaimed, _, leased⟩ := Prog.returns_bind.mp leased
      match reclaimed with
      | .error _ => cases leased
      | .ok () =>
      obtain ⟨ready, leased⟩ := leased
      cases ready with
      | none => cases leased
      | some ready =>
          obtain ⟨fetched, leased, same⟩ := Prog.returns_bind.mp leased
          cases same
          exact leaseFirst_nonempty leased

/-! ## Marks -/

theorem markSuccess_removes (valid : s.Valid) {id : Bytes} {f : File}
    (found : s.disk.files (msgPath .inflight id) = some f)
    (run : (markSuccess id).Runs (sem (platform fails lists) i) s (.ok ()) t) : t.Absent id := by
  obtain ⟨-, -, others⟩ := valid.alive found
  obtain ⟨there, u, ⟨exists_, -⟩, run⟩ := run
  match there with
  | none => cases run.1
  | some false =>
      have absent := exists_.1
      simp [Disk.present, platform, found] at absent
  | some true =>
      obtain ⟨removed, v, ⟨remove, -⟩, run⟩ := run
      rw [exists_.2] at remove
      cases removed with
      | none => cases run.1
      | some removed =>
          obtain ⟨-, rfl⟩ := run
          intro dir
          rw [remove.2]
          by_cases inflight : dir = .inflight
          · simp [inflight, platform]
          · simp [msgPath_inj, inflight, platform, others dir inflight]

theorem markFail_moves (valid : s.Valid) {f : File} {dst : QueueDir}
    (found : s.disk.files (msgPath .inflight msg.id) = some f)
    (moves : ¬ fails (.rename (msgPath .inflight msg.id) (msgPath dst msg.id)))
    {outcome : Except Exn Unit}
    (run : (markFail dst msg).Runs (sem (platform fails lists) i) s outcome t) :
    outcome = .ok () ∧ ∀ dir, t.disk.files (msgPath dir msg.id) ≠ none ↔ dir = dst := by
  obtain ⟨-, -, others⟩ := valid.alive found
  obtain ⟨moved, u, ⟨rename, -⟩, rfl, rfl⟩ := run
  refine ⟨rfl, ?_⟩
  cases moved with
  | false =>
      obtain ⟨refused | missing, -⟩ := rename
      · exact absurd refused moves
      · exact absurd (missing.symm.trans found) (by simp)
  | true =>
      obtain ⟨g, -, disk⟩ := rename
      intro dir
      rw [disk]
      by_cases arrived : dir = dst
      · simp [arrived, platform]
      · by_cases left : dir = .inflight
        · subst left
          simp [msgPath_inj, arrived, platform]
        · simp [msgPath_inj, arrived, left, platform, others dir left]

/-! ## The attempt -/

/-- The message is gone, in `permanent_fail` or in `failure`. -/
structure Settled (id : Bytes) (delivered refused : Prop) (t : QueueState ι) : Prop where
  removed : t.Absent id ↔ delivered
  permanent : t.disk.files (msgPath .permanentFail id) ≠ none ↔ refused
  failed : t.disk.files (msgPath .failure id) ≠ none ↔ ¬ delivered ∧ ¬ refused

theorem Settled.of_removed {id : Bytes} {delivered refused : Prop} (absent : t.Absent id)
    (done : delivered) (notRefused : ¬ refused) : Settled id delivered refused t where
  removed := iff_of_true absent done
  permanent := iff_of_false (not_not.mpr (absent _)) notRefused
  failed := iff_of_false (not_not.mpr (absent _)) fun neither => neither.1 done

theorem Settled.of_moved {id : Bytes} {delivered refused : Prop} {dst : QueueDir}
    (moved : ∀ dir, t.disk.files (msgPath dir id) ≠ none ↔ dir = dst) (notDone : ¬ delivered)
    (place : (dst = .permanentFail ∧ refused) ∨ (dst = .failure ∧ ¬ refused)) :
    Settled id delivered refused t where
  removed := iff_of_false (fun absent => (moved dst).mpr rfl (absent dst)) notDone
  permanent := by
    rw [moved]
    rcases place with ⟨rfl, refused⟩ | ⟨rfl, kept⟩
    · exact iff_of_true rfl refused
    · exact iff_of_false (by decide) kept
  failed := by
    rw [moved]
    rcases place with ⟨rfl, refused⟩ | ⟨rfl, kept⟩
    · exact iff_of_false (by decide) fun neither => neither.2 refused
    · exact iff_of_true rfl ⟨notDone, kept⟩

theorem not_settled {id : Bytes} {delivered refused : Prop} (valid : s.Valid) {f : File}
    (found : s.disk.files (msgPath .inflight id) = some f) : ¬ Settled id delivered refused s := by
  intro settled
  obtain ⟨-, -, others⟩ := valid.alive found
  have notDelivered : ¬ delivered := fun done => by
    have absent := settled.removed.mpr done .inflight
    rw [found] at absent
    cases absent
  have notRefused : ¬ refused := fun done =>
    settled.permanent.mpr done (others .permanentFail (by decide))
  exact settled.failed.mpr ⟨notDelivered, notRefused⟩ (others .failure (by decide))

theorem settle_returns {result : DeliveryResult} {marked : Except Exn Unit}
    (removable : result.success = true → ¬ fails (.fileExists (msgPath .inflight msg.id)) ∧
      ¬ fails (.remove (msgPath .inflight msg.id)))
    (run : (settle msg result).Runs (sem (platform fails lists) i) s marked t) :
    marked = .ok () := by
  unfold settle at run
  split at run
  · rename_i succeeded
    obtain ⟨looks, removes⟩ := removable succeeded
    obtain ⟨there, u, ⟨exists_, -⟩, run⟩ := run
    match there with
    | none => exact absurd exists_.1 looks
    | some false => exact run.1
    | some true =>
        obtain ⟨removed, v, ⟨remove, -⟩, run⟩ := run
        cases removed with
        | none => exact absurd remove.1 removes
        | some removed => exact run.1
  · split at run <;>
    · obtain ⟨_, _, -, run⟩ := run
      exact run.1

theorem settle_settled (valid : s.Valid) {f : File} {result : DeliveryResult}
    {marked : Except Exn Unit} {delivered refused : Prop}
    (found : s.disk.files (msgPath .inflight msg.id) = some f)
    (moves : ∀ dir, ¬ fails (.rename (msgPath .inflight msg.id) (msgPath dir msg.id)))
    (success : result.success = true ↔ delivered)
    (permanent : result.permanentFailure = true ↔ refused) (apart : delivered → ¬ refused)
    (removable : delivered → ¬ fails (.fileExists (msgPath .inflight msg.id)) ∧
      ¬ fails (.remove (msgPath .inflight msg.id)))
    (run : (settle msg result).Runs (sem (platform fails lists) i) s marked t) :
    Settled msg.id delivered refused t := by
  obtain rfl := settle_returns (fun succeeded => removable (success.mp succeeded)) run
  unfold settle at run
  split at run
  · rename_i succeeded
    have done := success.mp succeeded
    exact .of_removed (markSuccess_removes valid found run) done (apart done)
  rename_i unsuccessful
  have notDelivered := mt success.mpr unsuccessful
  split at run
  · rename_i final
    exact .of_moved (markFail_moves valid found (moves _) run).2 notDelivered
      (.inl ⟨rfl, permanent.mp final⟩)
  · rename_i kept
    exact .of_moved (markFail_moves valid found (moves _) run).2 notDelivered
      (.inr ⟨rfl, mt permanent.mpr kept⟩)

/-- The log calls let a pass with this recipient come to its mark. That the domain was not
    looked up does no harm where its server refuses the message anyhow. -/
structure Reported (connections : Bytes → Nat → Network) (logs : PassLogs) (lookups : LookupLogs)
    (recipient : Bytes) : Prop where
  attempting : logs.attempting = true
  concluded : logs.concluded = true
  lookedUp : code '@' ∈ recipient → lookups.lookingUp = true ∨
    (lookups.lookupFailed = true ∧ Refused connections recipient)

theorem Reported.result (reported : Reported connections logs lookups (orUnknown msg.recipient)) :
    ∃ result, tryDelivery (deliver connections lookups) logs msg = .ok result ∧
      (result.success = true ↔ Delivered connections (orUnknown msg.recipient)) ∧
      (result.permanentFailure = true ↔ Refused connections (orUnknown msg.recipient)) := by
  obtain ⟨attempting, concluded, lookedUp⟩ := reported
  suffices told : ∃ result, deliver connections lookups (orUnknown msg.sender)
      (orUnknown msg.recipient) msg.rawData = .ok result ∧
      (result.success = true ↔ Delivered connections (orUnknown msg.recipient)) ∧
      (result.permanentFailure = true ↔ Refused connections (orUnknown msg.recipient)) by
    obtain ⟨result, delivers, flags⟩ := told
    exact ⟨result, by simp [tryDelivery, attempting, concluded, delivers], flags⟩
  cases looking : lookups.lookingUp with
  | true => exact deliver_outcome fun _ => looking
  | false =>
      by_cases hasDomain : code '@' ∈ orUnknown msg.recipient
      · obtain ⟨failed, refused⟩ := (lookedUp hasDomain).resolve_left (by simp [looking])
        refine ⟨_, (deliver_unlooked hasDomain looking).trans (if_pos failed), ?_, ?_⟩
        · exact iff_of_false (by simp [undeliverable]) fun done => done.not_refused refused
        · exact iff_of_true rfl refused
      · exact deliver_outcome fun there => absurd there hasDomain

/-- What an attempt at a message does is what it does between its fetch and its mark. -/
theorem attempt_ends {deliver : Deliver} {marked : Except Exn Unit}
    (run : (process deliver logs msg).Runs (sem (platform fails lists) i) s marked t) :
    ∃ outcome, (attempt deliver logs msg).Runs (sem (platform fails lists) i) s outcome t :=
  ⟨_, Prog.runs_map.mpr ⟨marked, run, rfl⟩⟩

/-- An exception before the mark leaves the message where it is. -/
theorem process_stuck {deliver : Deliver} {e : Exn} (nonempty : msg.rawData ≠ [])
    (throws : tryDelivery deliver logs msg = .error e) :
    (process deliver logs msg).Runs (sem (platform fails lists) i) s (.error e) s := by
  rw [process, if_neg nonempty, throws]
  exact ⟨rfl, rfl⟩

theorem markPermFail_runs {f : File} (found : s.disk.files (msgPath .inflight msg.id) = some f) :
    ∃ t, (markPermFail msg).Runs (sem (platform fails lists) i) s (.ok ()) t := by
  let moved : QueueState ι :=
    { s with disk := s.disk.move (msgPath .inflight msg.id) (msgPath .permanentFail msg.id) f }
  have rename : sem (platform fails lists) i
      (.rename (msgPath .inflight msg.id) (msgPath .permanentFail msg.id)) s true moved :=
    ⟨⟨f, found, rfl⟩, rfl, rfl, rfl⟩
  exact ⟨moved, true, moved, rename, rfl, rfl⟩

theorem markSuccess_stuck {f : File} (found : s.disk.files (msgPath .inflight msg.id) = some f)
    (fail : fails (.fileExists (msgPath .inflight msg.id)) ∨ fails (.remove (msgPath .inflight msg.id))) :
    ∃ e, (markSuccess msg.id).Runs (sem (platform fails lists) i) s (.error e) s := by
  rcases fail with looks | removes
  · exact ⟨.filesystemError, none, s, ⟨⟨looks, rfl⟩, rfl, rfl, rfl⟩, rfl, rfl⟩
  · refine ⟨.filesystemError, some true, s, ⟨⟨?_, rfl⟩, rfl, rfl, rfl⟩, none, s,
      ⟨⟨removes, rfl⟩, rfl, rfl, rfl⟩, rfl, rfl⟩
    simp [Disk.present, platform, found]

/-- Only where the delivery is reported can every attempt put the message where it belongs. -/
theorem reported_of_settled {f : File} (valid : s.Valid) (nonempty : msg.rawData ≠ [])
    (found : s.disk.files (msgPath .inflight msg.id) = some f)
    (moves : ∀ dir, ¬ fails (.rename (msgPath .inflight msg.id) (msgPath dir msg.id)))
    (ends : ∀ marked t, (process (deliver connections lookups) logs msg).Runs
        (sem (platform fails lists) i) s marked t → Settled msg.id
          (Delivered connections (orUnknown msg.recipient))
          (Refused connections (orUnknown msg.recipient)) t) :
    Reported connections logs lookups (orUnknown msg.recipient) := by
  have goesOn : ∀ e, tryDelivery (deliver connections lookups) logs msg ≠ .error e :=
    fun e throws => not_settled valid found (ends _ _ (process_stuck nonempty throws))
  have attempting : logs.attempting = true := by
    by_contra unlogged
    exact goesOn .filesystemError (by simp [tryDelivery, unlogged])
  have concluded : logs.concluded = true := by
    by_contra unlogged
    cases delivers : deliver connections lookups (orUnknown msg.sender) (orUnknown msg.recipient)
        msg.rawData with
    | error e => exact goesOn e (by simp [tryDelivery, attempting, delivers])
    | ok result =>
        exact goesOn .filesystemError (by simp [tryDelivery, attempting, unlogged, delivers])
  refine ⟨attempting, concluded, fun hasDomain => ?_⟩
  cases looking : lookups.lookingUp with
  | true => exact .inl rfl
  | false =>
      have delivers := @deliver_unlooked connections (orUnknown msg.sender)
        (orUnknown msg.recipient) msg.rawData lookups hasDomain looking
      cases failed : lookups.lookupFailed with
      | false =>
          exact absurd (by simp [tryDelivery, attempting, delivers, failed]) (goesOn .filesystemError)
      | true =>
          -- the message is put aside without asking a server
          obtain ⟨t, marks⟩ := @markPermFail_runs _ i fails lists s msg f found
          refine .inr ⟨rfl, (ends (.ok ()) t ?_).permanent.mp ?_⟩
          · simp only [process, nonempty, if_false, tryDelivery, attempting, delivers, failed,
              if_true, concluded, Bool.not_true, Bool.false_eq_true]
            exact marks
          · exact ((markFail_moves valid found (moves _) marks).2 .permanentFail).mpr rfl

/-- An attempt at a message that is still in `inflight`. -/
theorem attempt_settled_iff (valid : s.Valid) (nonempty : msg.rawData ≠ [])
    (still : s.disk.files (msgPath .inflight msg.id) ≠ none)
    (moves : ∀ dir, ¬ fails (.rename (msgPath .inflight msg.id) (msgPath dir msg.id))) :
    (∀ outcome t, (attempt (deliver connections lookups) logs msg).Runs
        (sem (platform fails lists) i) s outcome t →
      Settled msg.id (Delivered connections (orUnknown msg.recipient))
        (Refused connections (orUnknown msg.recipient)) t) ↔
      Reported connections logs lookups (orUnknown msg.recipient) ∧
        (Delivered connections (orUnknown msg.recipient) →
          ¬ fails (.fileExists (msgPath .inflight msg.id)) ∧
            ¬ fails (.remove (msgPath .inflight msg.id))) := by
  obtain ⟨f, found⟩ := Option.ne_none_iff_exists'.mp still
  constructor
  · intro settles
    have ends : ∀ marked t, (process (deliver connections lookups) logs msg).Runs
        (sem (platform fails lists) i) s marked t → Settled msg.id
          (Delivered connections (orUnknown msg.recipient))
          (Refused connections (orUnknown msg.recipient)) t := by
      intro marked t run
      obtain ⟨outcome, run⟩ := attempt_ends run
      exact settles outcome t run
    have reported := reported_of_settled valid nonempty found moves ends
    refine ⟨reported, fun done => ?_⟩
    obtain ⟨result, delivers, success, -⟩ := reported.result
    by_contra fail
    obtain ⟨e, stuck⟩ := @markSuccess_stuck _ i fails lists s msg f found
      (by rwa [← not_or, not_not] at fail)
    refine not_settled valid found (ends (.error e) _ ?_)
    rw [process, if_neg nonempty, delivers]
    simp only [settle, success.mpr done, if_true]
    exact stuck
  · rintro ⟨reported, removable⟩ outcome t run
    obtain ⟨result, delivers, success, permanent⟩ := reported.result
    obtain ⟨marked, run, -⟩ := Prog.runs_map.mp run
    rw [process, if_neg nonempty, delivers] at run
    exact settle_settled valid found moves success permanent Delivered.not_refused removable run

/-- A pass that nobody disturbs, on a queue where files can be moved and removed. -/
theorem runOnce_settled {past : List Returned} {first : QueueState ι}
    {outcome : Except Exn (Option QueueMessage)} (valid : first.Valid)
    (earlier : Queue.Trace (platform fails lists) first past s)
    (moves : ∀ src dst, ¬ fails (.rename src dst)) (looks : ∀ p, ¬ fails (.fileExists p))
    (removes : ∀ p, ¬ fails (.remove p))
    (run : (runOnce (deliver connections lookups) logs).Runs (sem (platform fails lists) i) s
      outcome t) :
    (∃ e, fetchReady.Runs (sem (platform fails lists) i) s (.error e) t) ∨
      fetchReady.Runs (sem (platform fails lists) i) s (.ok none) t ∨
      ∃ msg fetched, fetchReady.Runs (sem (platform fails lists) i) s (.ok (some msg)) fetched ∧
        (Reported connections logs lookups (orUnknown msg.recipient) →
          Settled msg.id (Delivered connections (orUnknown msg.recipient))
            (Refused connections (orUnknown msg.recipient)) t) := by
  rcases runOnce_runs.mp run with ⟨e, fetch, -⟩ | ⟨fetch, -⟩ | ⟨msg, fetched, fetch, rest⟩
  · exact .inl ⟨e, fetch⟩
  · exact .inr (.inl fetch)
  · refine .inr (.inr ⟨msg, fetched, fetch, fun reported => ?_⟩)
    have valid := trace_valid (earlier.fetched fetch) valid
    have nonempty := fetchReady_nonempty fetch.returns
    exact (attempt_settled_iff valid nonempty (fetchReady_holds fetch) fun dir => moves _ _).mpr
      ⟨reported, fun _ => ⟨looks _, removes _⟩⟩ outcome t rest

end Attempt

/-! ## Any message that was fetched -/

section Fetched

variable {ι : Type} [DecidableEq ι]

/-- In any state of the queue: once a message was fetched, and while it is still
    in `inflight`, the worker's attempt removes it exactly when the server
    accepts it, moves it to `permanent_fail` exactly when there is no server or
    the server refuses it, and to `failure` in every other case, if and only if
    the log calls before the mark return, but for that of a lookup whose server
    would refuse, and a delivered file can be looked up and removed. -/
theorem attempt_settles_iff {pool : QueuePool ι} (reached : Reachable pool)
    {fails : FsOp QueuePath QueueScan → Prop}
    {lists : Disk QueuePath → QueueScan → List QueuePath → Prop} {i : ι} {msg : QueueMessage}
    (leased : fetchReady.Returns (.ok (some msg)))
    (still : pool.shared.disk.files (msgPath .inflight msg.id) ≠ none)
    (moves : ∀ dir, ¬ fails (.rename (msgPath .inflight msg.id) (msgPath dir msg.id)))
    (connections : Bytes → Nat → Network) (logs : PassLogs) (lookups : LookupLogs) :
    (∀ outcome t, (attempt (deliver connections lookups) logs msg).Runs
        (sem (platform fails lists) i) pool.shared outcome t →
      (t.Absent msg.id ↔ Delivered connections (orUnknown msg.recipient)) ∧
      (t.disk.files (msgPath .permanentFail msg.id) ≠ none ↔
        Refused connections (orUnknown msg.recipient)) ∧
      (t.disk.files (msgPath .failure msg.id) ≠ none ↔
        ¬ Delivered connections (orUnknown msg.recipient) ∧
          ¬ Refused connections (orUnknown msg.recipient))) ↔
      Reported connections logs lookups (orUnknown msg.recipient) ∧
        (Delivered connections (orUnknown msg.recipient) →
          ¬ fails (.fileExists (msgPath .inflight msg.id)) ∧
            ¬ fails (.remove (msgPath .inflight msg.id))) := by
  have nonempty := fetchReady_nonempty leased
  rw [← attempt_settled_iff (reachable_consistent reached).valid nonempty still moves]
  constructor
  · intro places outcome t run
    obtain ⟨removed, permanent, failed⟩ := places outcome t run
    exact ⟨removed, permanent, failed⟩
  · intro settles outcome t run
    obtain ⟨removed, permanent, failed⟩ := settles outcome t run
    exact ⟨removed, permanent, failed⟩

/-- A server that greets, takes EHLO, and answers everything else with `last`. -/
def answering (last : Received) : Network where
  resolves := true
  opens := true
  connects := true
  recvs i := if i < 2 then .bytes (ascii "250 ok") (by decide) else last
  uninitialized := []
  lengthError := []

/-- The message `hi` in one of the directories. -/
def lying (dir : QueueDir) : QueueState Bool :=
  oneMessage false (msgPath dir (idText 7 1)) (idText 7 1)
    (enqueuedContent (ascii "a@x") (ascii "b@y") (ascii "hi")) 0 0

/-- As a worker has fetched it. -/
def fetchedMessage : QueueMessage :=
  parseMessage (idText 7 1) (enqueuedContent (ascii "a@x") (ascii "b@y") (ascii "hi"))

/-- A message whose sender is refused ends in `permanent_fail`. -/
theorem attempt_settles_refused : ∃ t : QueueState Bool,
    (attempt (deliver (fun _ _ => answering (.bytes (ascii "550 no") (by decide))) {}) {}
      fetchedMessage).Runs (sem reliable true) (lying .inflight) (.ok (some fetchedMessage)) t ∧
    t.disk.files (msgPath .permanentFail (idText 7 1)) ≠ none := by
  let refusing : Bytes → Nat → Network := fun _ _ =>
    answering (.bytes (ascii "550 no") (by decide))
  obtain ⟨⟨past, before⟩, leased⟩ := leased_first
  have refused : Refused refusing (orUnknown fetchedMessage.recipient) :=
    .inr ⟨⟨rfl, rfl, rfl, by decide⟩, by decide, .inl (by decide)⟩
  have run : (attempt (deliver refusing {}) {} fetchedMessage).Runs (sem reliable true)
      (lying .inflight) (.ok (some fetchedMessage)) (lying .permanentFail) := by
    refine Prog.runs_map.mpr ⟨.ok (), ?_, rfl⟩
    exact ⟨true, _, rename_one _ _, rfl, rfl⟩
  have reached := (before.fetched leased).reachable
  have settled := (attempt_settles_iff reached leased.returns
    (by simp [oneMessage, oneFile, parseMessage]) (fun _ refuse => refuse) refusing {} {}).mpr
    ⟨⟨rfl, rfl, fun _ => .inl rfl⟩, fun _ => ⟨id, id⟩⟩ _ _ run
  exact ⟨_, run, settled.2.1.mpr refused⟩

/-- A server that takes every message. -/
def taking : Network where
  resolves := true
  opens := true
  connects := true
  recvs i := .bytes (if i = 4 then ascii "354 go" else ascii "250 ok") (by split <;> decide)
  uninitialized := []
  lengthError := []

/-- The server takes the message. It is put aside where the lookup cannot be logged, and left in
    `inflight` where the success cannot be. -/
theorem unlogged_misplaced : Delivered (fun _ _ => taking) (orUnknown fetchedMessage.recipient) ∧
    (attempt (deliver (fun _ _ => taking) { lookingUp := false }) {} fetchedMessage).Runs
      (sem reliable true) (lying .inflight) (.ok (some fetchedMessage)) (lying .permanentFail) ∧
    (attempt (deliver (fun _ _ => taking) {}) { concluded := false } fetchedMessage).Runs
      (sem reliable true) (lying .inflight) (.error .filesystemError) (lying .inflight) := by
  refine ⟨⟨by decide, ⟨rfl, rfl, rfl, by decide⟩, by decide, by decide, by decide, by decide,
    by decide⟩, ?_, ?_⟩
  · refine Prog.runs_map.mpr ⟨.ok (), ?_, rfl⟩
    exact ⟨true, _, rename_one _ _, rfl, rfl⟩
  · exact Prog.runs_map.mpr ⟨.error .filesystemError, ⟨rfl, rfl⟩, rfl⟩

end Fetched

end EmailServer.Delivery
