import EmailServer.Queue.Conservation

/-! # Leases and retries

What keeps a message from being handed out. A message that is neither waiting
in `active` nor in `inflight` under an expired lease is left where it is by
every call that does not mark it. The age of a lease is the age of the file,
which counts from the message's arrival and not from its lease.
-/

namespace EmailServer.Queue

open QueueState

/-- The call marks the message, whoever leased it. -/
def Call.marks : Call → Bytes → Prop
  | .markSuccess id', id => id' = id
  | .markTempFail msg, id => msg.id = id
  | .markPermFail msg, id => msg.id = id
  | _, _ => False

/-- The call looks for a message to hand out. -/
def Call.fetches : Call → Prop
  | .fetchReady | .runOnce _ _ => True
  | _ => False

/-- The call handed the message out. -/
def Returned.leases (r : Returned) (id : Bytes) : Prop :=
  ∃ msg, r.outcome = .fetched (.ok (some msg)) ∧ msg.id = id

/-- Scans report files of their directory only. -/
def Honest (lists : Disk QueuePath → QueueScan → List QueuePath → Prop) : Prop :=
  ∀ s d entries, lists s d entries → ∀ p ∈ entries, d.covers p

/-- The time up to which the lease on a file has not expired. -/
def leasedUntil (f : File) : Nat := f.written + LEASE_TIMEOUT_SEC * ticksPerSecond

section Rest

variable {ι : Type} {i : ι} {fails : FsOp QueuePath QueueScan → Prop}
  {lists : Disk QueuePath → QueueScan → List QueuePath → Prop} {id : Bytes}
  {home : QueueDir → Option File} {now : Nat}

/-- At time `now`, the message files of `id` are those of `home`. -/
structure Rests (id : Bytes) (home : QueueDir → Option File) (now : Nat) (s : QueueState ι) :
    Prop where
  files : ∀ dir, s.disk.files (msgPath dir id) = home dir
  drawn : id ∈ s.disk.drawn
  clock : s.disk.now = now

/-- No call finds the message ready: it does not wait, and its lease runs. -/
structure Withheld (home : QueueDir → Option File) (now : Nat) : Prop where
  notActive : home .active = none
  leased : ∀ f, home .inflight = some f → now ≤ leasedUntil f

/-- The operation cannot touch a message with these files: it names none of
    them, or it needs one that is not there. -/
def Avoids (id : Bytes) (home : QueueDir → Option File) (op : FsOp QueuePath QueueScan) : Prop :=
  (∀ dir, msgPath dir id ∉ op.writes) ∨
    ∃ dir, home dir = none ∧
      ((∃ dst, op = .rename (msgPath dir id) dst) ∨ op = .remove (msgPath dir id))

theorem Rests.step {s t : QueueState ι} {op : FsOp QueuePath QueueScan} {r : op.Res}
    (rests : Rests id home now s) (avoids : Avoids id home op)
    (step : QueueState.sem (platform fails lists) i op s r t) : Rests id home now t := by
  obtain ⟨effect, -⟩ := step
  refine ⟨fun dir => ?_, Platform.effect_drawn effect rests.drawn,
    (Platform.effect_now effect).trans rests.clock⟩
  rw [← rests.files dir]
  rcases avoids with unnamed | ⟨gone, absent, ⟨dst, rfl⟩ | rfl⟩
  · exact Platform.effect_frame effect fun q member same => unnamed dir (same ▸ member)
  · rw [← rests.files gone] at absent
    simp only [Platform.Effect] at effect
    split at effect
    · obtain ⟨f, found, -⟩ := effect
      exact absurd (absent.symm.trans found) (by simp)
    · rw [effect.2]
  · rw [← rests.files gone] at absent
    cases r with
    | none => rw [effect.2]
    | some removed => rw [effect.2, platform, Disk.clear_absent _ _ absent]

theorem avoids_looking {op : FsOp QueuePath QueueScan} (looks : op.writes = []) :
    Avoids id home op := .inl fun dir member => by simp [looks] at member

theorem avoids_rename {id' : Bytes} (other : id' ≠ id) (src dst : QueueDir) :
    Avoids id home (.rename (msgPath src id') (msgPath dst id')) := by
  refine .inl fun dir member => ?_
  simp [FsOp.writes, msgPath_inj, Ne.symm other] at member

theorem avoids_entry {f : QueuePath} (named : isMsg f = true) (other : FileName.stem f.name ≠ id)
    (src dst : QueueDir) : Avoids id home (.rename ⟨src, f.name⟩ ⟨dst, f.name⟩) := by
  rw [isMsg_path named, isMsg_path named]
  exact avoids_rename other src dst

/-! ## What fetching does to a withheld message -/

variable {s : QueueState ι}

theorem isLeaseExpired_rests (rests : Rests id home now s) (p : QueuePath) :
    (isLeaseExpired p).Ensures (sem (platform fails lists) i) s fun expired t =>
      Rests id home now t ∧ (expired = .ok true → ∀ dir, p = msgPath dir id →
        ∃ f, home dir = some f ∧ leasedUntil f < now) := by
  refine .step fun last t step => ?_
  have restsT := rests.step (avoids_looking rfl) step
  cases last with
  | none => exact .pure ⟨restsT, by simp⟩
  | some last =>
      obtain ⟨⟨⟨f, found, rfl⟩, disk⟩, -⟩ := step
      refine .step fun time u step => .pure ⟨restsT.step (avoids_looking rfl) step, ?_⟩
      rintro old dir rfl
      obtain ⟨⟨rfl, -⟩, -⟩ := step
      rw [restsT.clock] at old
      exact ⟨f, (rests.files dir).symm.trans found, by simpa [leasedUntil] using old⟩

theorem reclaimExpired_rests (leased : ∀ f, home .inflight = some f → now ≤ leasedUntil f)
    {entries : List QueuePath} (inflight : ∀ p ∈ entries, p.dir = .inflight)
    (rests : Rests id home now s) :
    (reclaimExpired entries).Ensures (sem (platform fails lists) i) s fun _ t =>
      Rests id home now t := by
  induction entries generalizing s with
  | nil => exact .pure rests
  | cons f rest ih =>
      have next : ∀ {t : QueueState ι}, Rests id home now t →
          (reclaimExpired rest).Ensures (sem (platform fails lists) i) t fun _ t =>
            Rests id home now t := ih fun p member => inflight p (.tail _ member)
      unfold reclaimExpired
      split
      · rename_i named
        have path : f = msgPath .inflight (FileName.stem f.name) := by
          rw [← inflight f (.head _)]
          exact isMsg_path named f.dir
        refine (isLeaseExpired_rests rests f).bind fun expired t looked => ?_
        obtain ⟨restsT, old⟩ := looked
        rcases expired with _ | _ | _
        · exact .pure restsT
        · exact next restsT
        · have other : FileName.stem f.name ≠ id := by
            rintro rfl
            obtain ⟨g, found, expired⟩ := old rfl .inflight path
            exact absurd (leased g found) (Nat.not_le.mpr expired)
          exact .step fun _ u step => next (restsT.step (avoids_entry named other _ _) step)
      · exact next rests

theorem leaseFirst_rests (notActive : home .active = none) {entries : List QueuePath}
    (active : ∀ p ∈ entries, p.dir = .active) (rests : Rests id home now s) :
    (leaseFirst entries).Ensures (sem (platform fails lists) i) s fun fetched t =>
      Rests id home now t ∧ ∀ msg, fetched = some msg → msg.id ≠ id := by
  induction entries generalizing s with
  | nil => exact .pure ⟨rests, by simp⟩
  | cons f rest ih =>
      have next : ∀ {t : QueueState ι}, Rests id home now t →
          (leaseFirst rest).Ensures (sem (platform fails lists) i) t fun fetched t =>
            Rests id home now t ∧ ∀ msg, fetched = some msg → msg.id ≠ id :=
        ih fun p member => active p (.tail _ member)
      unfold leaseFirst
      split
      · rename_i named
        refine .step fun there t step => ?_
        have restsT := rests.step (avoids_looking rfl) step
        rcases there with _ | _ | _
        · exact next restsT
        · refine .step fun leased u rename => ?_
          by_cases this : FileName.stem f.name = id
          · -- its file is not there, so the rename fails
            have path : f = msgPath .active id := by
              rw [← this, ← isMsg_path named .active, ← active f (.head _)]
            have restsU := restsT.step (.inr ⟨.active, notActive, .inl ⟨_, by rw [path]⟩⟩) rename
            cases leased with
            | false => exact next restsU
            | true =>
                obtain ⟨⟨g, found, -⟩, -⟩ := rename
                rw [path] at found
                exact absurd ((restsT.files .active).symm.trans found) (by simp [notActive])
          · have restsU := restsT.step (avoids_entry named this _ _) rename
            cases leased with
            | false => exact next restsU
            | true =>
                refine .step fun verified v step => ?_
                have restsV := restsU.step (avoids_looking rfl) step
                rcases verified with _ | _ | _
                · exact next restsV
                · exact next restsV
                · refine .step fun raw w step => ?_
                  have restsW := restsV.step (avoids_looking rfl) step
                  rcases raw with _ | _ | _
                  · exact .step fun _ x step => next (restsW.step (avoids_entry named this _ _) step)
                  · exact .step fun _ x step => next (restsW.step (avoids_entry named this _ _) step)
                  · exact .pure ⟨restsW, by rintro msg ⟨⟩; exact this⟩
        · exact next restsT
      · exact next rests

theorem fetchReady_rests (honest : Honest lists) (withheld : Withheld home now)
    (rests : Rests id home now s) :
    fetchReady.Ensures (sem (platform fails lists) i) s fun fetched t =>
      Rests id home now t ∧ ∀ msg, fetched = .ok (some msg) → msg.id ≠ id := by
  refine .step fun leased t step => ?_
  have restsT := rests.step (avoids_looking rfl) step
  cases leased with
  | none => exact .pure ⟨restsT, by simp⟩
  | some leased =>
      have inflight := honest _ _ _ step.1.1
      refine (reclaimExpired_rests withheld.leased inflight restsT).bind fun reclaimed u restsU => ?_
      match reclaimed with
      | .error _ => exact .pure ⟨restsU, by simp⟩
      | .ok () =>
        refine .step fun ready v step => ?_
        have restsV := restsU.step (avoids_looking rfl) step
        cases ready with
        | none => exact .pure ⟨restsV, by simp⟩
        | some ready =>
            have active := honest _ _ _ step.1.1
            refine (leaseFirst_rests withheld.notActive active restsV).bind ?_
            rintro fetched w ⟨restsW, other⟩
            exact .pure ⟨restsW, fun msg same => other msg (Except.ok.inj same)⟩

/-! ## What the other calls do to it -/

theorem uses_rests {α : Type} {p : QueueProg α} (uses : p.Uses (Avoids id home))
    (rests : Rests id home now s) :
    p.Ensures (sem (platform fails lists) i) s fun _ t => Rests id home now t :=
  fun _ _ run => uses.invariant (Rests id home now)
    (fun _ _ _ _ avoids rests step => rests.step avoids step) rests run

theorem avoids_mark {id' : Bytes} (spared : home .inflight = none ∨ id' ≠ id) (dst : QueueDir) :
    Avoids id home (.rename (msgPath .inflight id') (msgPath dst id')) := by
  by_cases this : id' = id
  · subst this
    exact .inr ⟨.inflight, spared.resolve_right (not_not.mpr rfl), .inl ⟨_, rfl⟩⟩
  · exact avoids_rename this _ _

theorem markFail_avoids {msg : QueueMessage} (spared : home .inflight = none ∨ msg.id ≠ id)
    (dst : QueueDir) : (markFail dst msg).Uses (Avoids id home) :=
  ⟨avoids_mark spared dst, fun _ => trivial⟩

theorem markSuccess_avoids {id' : Bytes} (spared : home .inflight = none ∨ id' ≠ id) :
    (markSuccess id').Uses (Avoids id home) := by
  refine ⟨avoids_looking rfl, ?_⟩
  intro there
  match there with
  | none | some false => trivial
  | some true =>
    refine ⟨?_, fun removed => by cases removed <;> trivial⟩
    by_cases this : id' = id
    · subst this
      exact .inr ⟨.inflight, spared.resolve_right (not_not.mpr rfl), .inr rfl⟩
    · refine .inl fun dir member => ?_
      simp [FsOp.writes, msgPath_inj, Ne.symm this] at member

theorem settle_avoids {msg : QueueMessage} (spared : home .inflight = none ∨ msg.id ≠ id)
    (result : DeliveryResult) : (settle msg result).Uses (Avoids id home) := by
  unfold settle
  split
  · exact markSuccess_avoids spared
  · split <;> exact markFail_avoids spared _

theorem process_avoids {msg : QueueMessage} (spared : home .inflight = none ∨ msg.id ≠ id)
    (deliver : Deliver) (logs : PassLogs) : (process deliver logs msg).Uses (Avoids id home) := by
  unfold process
  split
  · exact markFail_avoids spared _
  · cases tryDelivery deliver logs msg with
    | error e => trivial
    | ok result => exact settle_avoids spared result

theorem removeOrphans_avoids (entries : List QueuePath) :
    (removeOrphans entries).Uses (Avoids id home) := by
  induction entries with
  | nil => trivial
  | cons f rest ih =>
      unfold removeOrphans
      split
      · rename_i orphan
        refine ⟨.inl fun dir member => ?_, fun _ => ih⟩
        exact isTmp_ne_msgPath orphan dir id (List.mem_singleton.mp member).symm
      · exact ih

theorem recover_avoids : recoverOrphanedTempFiles.Uses (Avoids id home) := by
  refine ⟨avoids_looking rfl, ?_⟩
  intro entries
  cases entries with
  | none => trivial
  | some entries => exact removeOrphans_avoids entries

theorem atomicWriteFile_avoids {id' : Bytes} (other : id' ≠ id) (content : Bytes) :
    (AtomicWrite.atomicWriteFile (tmpPath id') (msgPath .active id') content).Uses
      (Avoids id home) := by
  have onTmp : ∀ {op : FsOp QueuePath QueueScan}, op.writes = [tmpPath id'] → Avoids id home op := by
    intro op same
    refine .inl fun dir member => ?_
    rw [same] at member
    exact msgPath_ne_tmpPath dir id id' (List.mem_singleton.mp member)
  have discard : (AtomicWrite.discard (tmpPath id') : QueueProg _).Uses (Avoids id home) :=
    ⟨onTmp rfl, fun _ => trivial⟩
  have abandon : (AtomicWrite.abandon (tmpPath id') : QueueProg _).Uses (Avoids id home) :=
    ⟨avoids_looking rfl, fun _ => discard⟩
  refine ⟨onTmp rfl, ?_⟩
  intro created
  cases created with
  | false => trivial
  | true =>
  refine ⟨onTmp rfl, ?_⟩
  intro bytesWritten
  dsimp only
  split
  · exact abandon
  refine ⟨onTmp rfl, ?_⟩
  intro flushed
  cases flushed with
  | false => exact abandon
  | true =>
  refine ⟨avoids_looking rfl, fun _ => ⟨.inl fun dir member => ?_, fun moved => ?_⟩⟩
  · simp [FsOp.writes, msgPath_inj, msgPath_ne_tmpPath, Ne.symm other] at member
  cases moved with
  | false => exact discard
  | true => exact ⟨avoids_looking rfl, fun found => by cases found <;> trivial⟩

theorem enqueue_rests (sender recipient raw : Bytes) (rests : Rests id home now s) :
    (enqueue sender recipient raw).Ensures (sem (platform fails lists) i) s fun _ t =>
      Rests id home now t := by
  refine .step fun entries t step => ?_
  have restsT := rests.step (avoids_looking rfl) step
  cases entries with
  | none => exact .pure restsT
  | some entries =>
      dsimp only
      split
      · exact .pure restsT
      refine .step fun id' u step => ?_
      have restsU := restsT.step (avoids_looking rfl) step
      have other : id' ≠ id := by
        rintro rfl
        exact step.1.2.1 restsT.drawn
      refine (uses_rests (atomicWriteFile_avoids other _) restsU).bind fun written v restsV => ?_
      match written with
      | .ok true | .ok false | .error _ => exact .pure restsV

theorem call_rests (honest : Honest lists) {call : Call}
    (withheld : call.fetches → Withheld home now)
    (spared : home .inflight = none ∨ ¬ call.marks id) (rests : Rests id home now s) :
    call.program.Ensures (sem (platform fails lists) i) s fun outcome t =>
      Rests id home now t ∧ ∀ msg, outcome = .fetched (.ok (some msg)) → msg.id ≠ id := by
  cases call with
  | enqueue sender recipient raw =>
      exact (enqueue_rests _ _ _ rests).bind fun _ _ restsT => .pure ⟨restsT, by simp⟩
  | markSuccess id' =>
      exact (uses_rests (markSuccess_avoids spared) rests).bind
        fun _ _ restsT => .pure ⟨restsT, by simp⟩
  | markTempFail msg | markPermFail msg =>
      exact (uses_rests (markFail_avoids spared _) rests).bind
        fun _ _ restsT => .pure ⟨restsT, by simp⟩
  | recoverOrphanedTempFiles =>
      exact (uses_rests recover_avoids rests).bind fun _ _ restsT => .pure ⟨restsT, by simp⟩
  | fetchReady =>
      refine (fetchReady_rests honest (withheld trivial) rests).bind ?_
      rintro fetched t ⟨restsT, other⟩
      exact .pure ⟨restsT, fun msg same => other msg (Outcome.fetched.inj same)⟩
  | runOnce deliver logs =>
      suffices inner : (runOnce deliver logs).Ensures (sem (platform fails lists) i) s fun fetched t =>
          Rests id home now t ∧ ∀ msg, fetched = .ok (some msg) → msg.id ≠ id by
        refine inner.bind ?_
        rintro fetched t ⟨restsT, other⟩
        exact .pure ⟨restsT, fun msg same => other msg (Outcome.fetched.inj same)⟩
      refine (fetchReady_rests honest (withheld trivial) rests).bind ?_
      rintro fetched t ⟨restsT, other⟩
      match fetched with
      | .error _ | .ok none => exact .pure ⟨restsT, by simp⟩
      | .ok (some msg) =>
        have notThis : msg.id ≠ id := other msg rfl
        have settled := @process_avoids _ home _ (.inr notThis) deliver logs
        refine (uses_rests settled restsT).bind fun marked u restsU => ?_
        match marked with
        | .error _ => exact .pure ⟨restsU, by simp⟩
        | .ok () => exact .pure ⟨restsU, by rintro _ ⟨⟩; exact notThis⟩

/-- Up to the time `limit` of a trace, a message that is withheld from every
    fetch and not marked stays where it is and is not handed out. -/
theorem trace_rests (honest : Honest lists) {limit : Nat} {past : List Returned}
    {t : QueueState ι} (trace : Trace (platform fails lists) s past t)
    (withheld : ∀ r ∈ past, r.time ≤ limit → r.call.fetches → Withheld home r.time)
    (spared : home .inflight = none ∨ ∀ r ∈ past, ¬ r.call.marks id)
    (rests : Rests id home s.disk.now s) :
    (t.disk.now ≤ limit → Rests id home t.disk.now t) ∧
      ∀ r ∈ past, r.time ≤ limit → ¬ r.leases id := by
  induction trace with
  | start => exact ⟨fun _ => rests, by simp⟩
  | @call past t i call outcome u _ run ih =>
      obtain ⟨restsT, quiet⟩ := ih (fun r member => withheld r (.tail _ member))
        (spared.imp_right fun unmarked r member => unmarked r (.tail _ member))
      have still := runs_now run
      have done : t.disk.now ≤ limit → Rests id home t.disk.now u ∧
          ∀ msg, outcome = .fetched (.ok (some msg)) → msg.id ≠ id := fun early =>
        call_rests honest (withheld _ (.head _) early)
          (spared.imp_right fun unmarked => unmarked _ (.head _)) (restsT early) _ _ run
      refine ⟨fun early => ?_, fun r member early => ?_⟩
      · rw [still] at early ⊢
        exact (done early).1
      · rcases List.mem_cons.mp member with rfl | old
        · rintro ⟨msg, fetched, same⟩
          exact (done early).2 msg fetched same
        · exact quiet r old early
  | wait _ tick ih =>
      obtain ⟨restsT, quiet⟩ := ih withheld spared
      obtain ⟨later, past, rfl⟩ := tick
      refine ⟨fun early => ?_, quiet⟩
      obtain ⟨files, drawn, -⟩ := restsT (past.trans early)
      exact ⟨files, drawn, rfl⟩

theorem leaseFirst_holds {entries : List QueuePath} {msg : QueueMessage} {t : QueueState ι}
    (run : (leaseFirst entries).Runs (sem (platform fails lists) i) s (some msg) t) :
    t.disk.files (msgPath .inflight msg.id) ≠ none := by
  induction entries generalizing s with
  | nil => cases run.1
  | cons f rest ih =>
      unfold leaseFirst at run
      split at run
      · rename_i named
        obtain ⟨there, u, -, run⟩ := run
        rcases there with _ | _ | _
        · exact ih run
        · obtain ⟨leased, v, -, run⟩ := run
          cases leased with
          | false => exact ih run
          | true =>
              obtain ⟨verified, w, -, run⟩ := run
              rcases verified with _ | _ | _
              · exact ih run
              · exact ih run
              · obtain ⟨raw, x, ⟨effect, -⟩, run⟩ := run
                rcases raw with _ | _ | _
                · obtain ⟨_, y, -, run⟩ := run
                  exact ih run
                · obtain ⟨_, y, -, run⟩ := run
                  exact ih run
                · obtain ⟨⟨g, found, -⟩, disk⟩ := effect
                  obtain ⟨same, rfl⟩ := run
                  cases same
                  rw [disk]
                  simp only [parseMessage, ← isMsg_path named .inflight]
                  exact Option.ne_none_iff_exists'.mpr ⟨g, found⟩
        · exact ih run
      · exact ih run

theorem fetchReady_holds {msg : QueueMessage} {t : QueueState ι}
    (run : fetchReady.Runs (sem (platform fails lists) i) s (.ok (some msg)) t) :
    t.disk.files (msgPath .inflight msg.id) ≠ none := by
  obtain ⟨leased, u, -, run⟩ := run
  cases leased with
  | none => cases run.1
  | some leased =>
      obtain ⟨reclaimed, v, -, run⟩ := Prog.runs_bind.mp run
      match reclaimed with
      | .error _ => cases run.1
      | .ok () =>
        obtain ⟨ready, w, -, run⟩ := run
        cases ready with
        | none => cases run.1
        | some ready =>
            obtain ⟨fetched, run, same⟩ := Prog.runs_map.mp run
            cases same
            exact leaseFirst_holds run

theorem trace_valid {past : List Returned} {t : QueueState ι}
    (trace : Trace (platform fails lists) s past t) (valid : s.Valid) : t.Valid := by
  induction trace with
  | start => exact valid
  | call _ run ih =>
      exact ((call_safe _).runs ih (Prog.runs_map.mpr ⟨_, run, rfl⟩)).1
  | wait _ tick ih =>
      obtain ⟨later, -, rfl⟩ := tick
      exact ih.untouched ⟨rfl, rfl, rfl, rfl⟩ fun _ _ => rfl

theorem Rests.of_valid (valid : s.Valid) {dir : QueueDir} {f : File}
    (found : s.disk.files (msgPath dir id) = some f) :
    Rests id (Function.update (fun _ => none) dir (some f)) s.disk.now s := by
  obtain ⟨published, -, others⟩ := valid.alive found
  refine ⟨fun other => ?_, (valid.drawn id).mpr (valid.owned id (by simp [published])), rfl⟩
  by_cases this : other = dir
  · subst this
    simp [found]
  · simp [this, others other this]

/-- From a valid state, a message in `failure` is never handed out. -/
theorem failed_rests (honest : Honest lists) (valid : s.Valid)
    (failed : s.disk.files (msgPath .failure id) ≠ none) {past : List Returned} {t : QueueState ι}
    (trace : Trace (platform fails lists) s past t) : ∀ r ∈ past, ¬ r.leases id := by
  obtain ⟨f, found⟩ := Option.ne_none_iff_exists'.mp failed
  have withheld : ∀ time, Withheld (Function.update (fun _ => none) QueueDir.failure (some f)) time :=
    fun time => ⟨by simp, by simp⟩
  intro r member
  exact (trace_rests honest trace (fun r _ _ _ => withheld r.time) (.inl (by simp))
    (Rests.of_valid valid found)).2 r member (trace.now_le.2 r member)

end Rest

/-! ## Leases -/

section Leases

variable {ι : Type}

/-- A leased message is not handed out again within the lease timeout, as long
    as its file is no older than the timeout whenever someone fetches. -/
theorem lease_exclusive {fails : FsOp QueuePath QueueScan → Prop}
    {lists : Disk QueuePath → QueueScan → List QueuePath → Prop} (honest : Honest lists) {now : Nat}
    {before : List Returned} {s leased : QueueState ι} {i : ι} {msg : QueueMessage}
    (earlier : Trace (platform fails lists) (initial now) before s)
    (lease : fetchReady.Runs (sem (platform fails lists) i) s (.ok (some msg)) leased) :
    ∃ file, leased.disk.files (msgPath .inflight msg.id) = some file ∧
      ∀ during t, Trace (platform fails lists) leased during t →
        (∀ r ∈ during, ¬ r.call.marks msg.id) →
        (∀ r ∈ during, r.call.fetches →
          r.time ≤ leased.disk.now + LEASE_TIMEOUT_SEC * ticksPerSecond →
          r.time ≤ file.written + LEASE_TIMEOUT_SEC * ticksPerSecond) →
        ∀ r ∈ during, r.time ≤ leased.disk.now + LEASE_TIMEOUT_SEC * ticksPerSecond →
          ¬ r.leases msg.id := by
  have valid : leased.Valid := trace_valid (earlier.fetched lease) (initial_valid now)
  obtain ⟨file, found⟩ := Option.ne_none_iff_exists'.mp (fetchReady_holds lease)
  refine ⟨file, found, ?_⟩
  intro during t trace unmarked young
  have withheld : ∀ r ∈ during, r.time ≤ leased.disk.now + LEASE_TIMEOUT_SEC * ticksPerSecond →
      r.call.fetches →
      Withheld (Function.update (fun _ => none) QueueDir.inflight (some file)) r.time := by
    intro r member early fetches
    refine ⟨by simp, ?_⟩
    intro f same
    obtain rfl : file = f := by simpa using same
    exact young r member fetches early
  exact (trace_rests honest trace withheld (.inr unmarked) (Rests.of_valid valid found)).2

/-- Everything succeeds and scans report what is there. -/
def reliable : Platform QueuePath QueueScan := platform (fun _ => False) exactScan

theorem reliable_honest : Honest exactScan := exactScan_covers

theorem waiting_first (later : Nat) :
    ∃ past, Trace reliable (initial 0 : QueueState Bool) past
      (oneMessage false (msgPath .active (idText 7 1)) (idText 7 1)
        (enqueuedContent (ascii "a@x") (ascii "b@y") (ascii "hi")) 0 later) := by
  have enqueued : (enqueue (ascii "a@x") (ascii "b@y") (ascii "hi")).Runs (sem reliable false)
      (initial 0) (.ok (idText 7 1))
      (oneMessage false (msgPath .active (idText 7 1)) (idText 7 1)
        (enqueuedContent (ascii "a@x") (ascii "b@y") (ascii "hi")) 0 0) :=
    enqueue_first (fun _ _ _ exact => exact) (by decide) 0 7 1
  exact ⟨_, .wait (Trace.start.enqueued enqueued) ⟨later, Nat.zero_le _, rfl⟩⟩

/-- A message leased as it arrives is not handed out again 100 seconds later. -/
theorem lease_exclusive_first :
    ∃ leased t : QueueState Bool,
      fetchReady.Runs (sem reliable false) leased (.ok none) t ∧
      ¬ (⟨leased.disk.now, .fetchReady, .fetched (.ok none)⟩ : Returned).leases (idText 7 1) := by
  obtain ⟨past, before⟩ := waiting_first 0
  let content := enqueuedContent (ascii "a@x") (ascii "b@y") (ascii "hi")
  have lease : fetchReady.Runs (sem reliable true)
      (oneMessage false (msgPath .active (idText 7 1)) (idText 7 1) content 0 0)
      (.ok (some (parseMessage (idText 7 1) content)))
      (oneMessage false (msgPath .inflight (idText 7 1)) (idText 7 1) content 0 0) :=
    fetchReady_waiting (fun _ _ _ exact => exact) (idText_ne_nil 7 1) (by decide)
  obtain ⟨file, found, exclusive⟩ := lease_exclusive reliable_honest before lease
  have hundred : Tick (oneMessage false (msgPath .inflight (idText 7 1)) (idText 7 1) content 0 0)
      (oneMessage false (msgPath .inflight (idText 7 1)) (idText 7 1) content 0
        (100 * ticksPerSecond)) := ⟨_, Nat.zero_le _, rfl⟩
  have again : fetchReady.Runs (sem reliable false)
      (oneMessage false (msgPath .inflight (idText 7 1)) (idText 7 1) content 0
        (100 * ticksPerSecond)) (.ok none) _ :=
    fetchReady_running (fun _ _ _ exact => exact) (idText_ne_nil 7 1) (by decide)
  obtain rfl : (⟨content, true, 0⟩ : File) = file := by simpa [oneMessage, oneFile, parseMessage] using found
  refine ⟨_, _, again, ?_⟩
  exact exclusive _ _ ((Trace.start.wait hundred).fetched again) (by simp [Call.marks])
    (by simp [oneMessage, oneFile, Call.fetches]) _ (.head _) (by decide)

/-- A message that waited for longer than the lease timeout before it was
    leased is handed out to two workers at the same time. -/
theorem old_message_leased_twice :
    ∃ (before : List Returned) (s leased t : QueueState Bool) (msg : QueueMessage),
      Trace reliable (initial 0) before s ∧
      fetchReady.Runs (sem reliable true) s (.ok (some msg)) leased ∧
      Trace reliable leased
        [⟨leased.disk.now, .fetchReady, .fetched (.ok (some msg))⟩] t := by
  obtain ⟨past, before⟩ := waiting_first (301 * ticksPerSecond)
  let content := enqueuedContent (ascii "a@x") (ascii "b@y") (ascii "hi")
  have lease : fetchReady.Runs (sem reliable true)
      (oneMessage false (msgPath .active (idText 7 1)) (idText 7 1) content 0 (301 * ticksPerSecond))
      (.ok (some (parseMessage (idText 7 1) content)))
      (oneMessage false (msgPath .inflight (idText 7 1)) (idText 7 1) content 0
        (301 * ticksPerSecond)) :=
    fetchReady_waiting (fun _ _ _ exact => exact) (idText_ne_nil 7 1) (by decide)
  have again : fetchReady.Runs (sem reliable false)
      (oneMessage false (msgPath .inflight (idText 7 1)) (idText 7 1) content 0
        (301 * ticksPerSecond))
      (.ok (some (parseMessage (idText 7 1) content))) _ :=
    fetchReady_expired (fun _ _ _ exact => exact) (idText_ne_nil 7 1) (by decide) (by decide)
  exact ⟨_, _, _, _, _, before, lease, Trace.start.fetched again⟩

end Leases

/-! ## Retries -/

section Retries

variable {ι : Type} [DecidableEq ι]

/-- No sequence of further calls hands out a message that lies in `failure`. -/
theorem failure_final {pool : QueuePool ι} (reached : Reachable pool) {id : Bytes}
    (failed : pool.shared.disk.files (msgPath .failure id) ≠ none) :
    ¬ ∃ later t r, Trace concurrent pool.shared later t ∧ r ∈ later ∧ r.leases id := by
  rintro ⟨later, t, r, trace, member, leases⟩
  exact failed_rests (fun _ _ _ covers => covers) (reachable_consistent reached).valid failed trace r
    member leases

theorem leased_first :
    (∃ past, Trace concurrent (initial 0 : QueueState Bool) past
      (oneMessage false (msgPath .active (idText 7 1)) (idText 7 1)
        (enqueuedContent (ascii "a@x") (ascii "b@y") (ascii "hi")) 0 0)) ∧
    fetchReady.Runs (sem concurrent true)
      (oneMessage false (msgPath .active (idText 7 1)) (idText 7 1)
        (enqueuedContent (ascii "a@x") (ascii "b@y") (ascii "hi")) 0 0)
      (.ok (some (parseMessage (idText 7 1)
        (enqueuedContent (ascii "a@x") (ascii "b@y") (ascii "hi")))))
      (oneMessage false (msgPath .inflight (idText 7 1)) (idText 7 1)
        (enqueuedContent (ascii "a@x") (ascii "b@y") (ascii "hi")) 0 0) := by
  constructor
  · have enqueued : (enqueue (ascii "a@x") (ascii "b@y") (ascii "hi")).Runs (sem concurrent false)
        (initial 0) (.ok (idText 7 1)) _ := enqueue_first exactScan_covers (by decide) 0 7 1
    exact ⟨_, Trace.start.enqueued enqueued⟩
  · exact fetchReady_waiting exactScan_covers (idText_ne_nil 7 1) (by decide)

theorem failed_first : ∃ past msg,
    Trace concurrent (initial 0 : QueueState Bool) (⟨0, .markTempFail msg, .finished⟩ :: past)
      (oneMessage false (msgPath .failure (idText 7 1)) (idText 7 1)
        (enqueuedContent (ascii "a@x") (ascii "b@y") (ascii "hi")) 0 0) := by
  obtain ⟨⟨past, before⟩, leased⟩ := leased_first
  exact ⟨_, _, (before.fetched leased).markedTempFail (markTempFail_one (j := true))⟩

theorem failure_final_first : ¬ ∃ later t r,
    Trace concurrent (oneMessage false (msgPath .failure (idText 7 1)) (idText 7 1)
      (enqueuedContent (ascii "a@x") (ascii "b@y") (ascii "hi")) 0 0) later t ∧
      r ∈ later ∧ r.leases (idText 7 1) := by
  obtain ⟨past, msg, trace⟩ := failed_first
  exact failure_final trace.reachable (by simp [oneMessage, oneFile])

/-- A message just marked as temporarily failed that no further calls hand out. -/
theorem failed_not_retried : ∃ past msg, ∃ s : QueueState Bool,
    Trace concurrent (initial 0) (⟨0, .markTempFail msg, .finished⟩ :: past) s ∧
      s.disk.files (msgPath .failure (idText 7 1)) ≠ none ∧
      ¬ ∃ later t r, Trace concurrent s later t ∧ r ∈ later ∧ r.leases (idText 7 1) := by
  obtain ⟨past, msg, trace⟩ := failed_first
  have failed : (oneMessage false (msgPath .failure (idText 7 1)) (idText 7 1)
      (enqueuedContent (ascii "a@x") (ascii "b@y") (ascii "hi")) 0 0).disk.files
      (msgPath .failure (idText 7 1)) ≠ none := by simp [oneMessage, oneFile]
  refine ⟨past, msg, _, trace, failed, ?_⟩
  rintro ⟨later, t, r, rest, member, leases⟩
  exact failed_rests (fun _ _ _ covers => covers) (trace_valid trace (initial_valid 0)) failed rest r
    member leases

end Retries

end EmailServer.Queue
